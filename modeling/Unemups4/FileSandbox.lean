import Unemups4.FileSystem

/-! What a resolved guest path opens. Only a link can lead out of a mount, one that does not
resolve itself, right after the deepest ancestor that exists. -/
namespace Unemups4.Files
open HostTree

variable {tree : Tree} {path root : HostPath} {loc : Location} {m : Mount} {mounts : List Mount}
  {guestPath : String}

/-- Opening a location, with creation allowed, reads or creates this one. -/
def Opens (tree : Tree) (loc l : Location) : Prop :=
  reach tree (.ofLocation loc) = .found l ∨ reach tree (.ofLocation loc) = .missing l

/-- The mount's prefix matches the guest path, as it is or, when it is relative, as it is taken from
`/app0`. -/
def Mount.Matches (m : Mount) (guestPath : String) : Prop :=
  mountPrefixMatches guestPath m.guest ∨
    isRelative guestPath ∧ mountPrefixMatches (anchored guestPath) m.guest

/-- A location lies in the directory of a mount that matches. -/
def Inside (tree : Tree) (mounts : List Mount) (guestPath : String) (l : Location) : Prop :=
  ∃ m ∈ mounts, m.Matches guestPath ∧ ∃ root, canonicalize tree m.root = some root ∧ root <+: l

/-- What a guest path resolves to opens inside a mount only. -/
def Sandboxed (tree : Tree) (mounts : List Mount) (guestPath : String) : Prop :=
  ∀ loc, resolve tree mounts guestPath = some loc → ∀ l, Opens tree loc l →
    Inside tree mounts guestPath l

/-- After its deepest ancestor that exists a host path goes on with a link, which leads here. -/
def LeadsAway (tree : Tree) (path : HostPath) (l : Location) : Prop :=
  ∃ loc name rest, deepest tree path.start path.parts.reverse = some (loc,name :: rest) ∧
    (∃ absolute parts, tree.entry (loc ++ [name]) = some (.link absolute parts)) ∧
    Opens tree (loc ++ name :: rest) l

def offers (tree : Tree) (mounts : List Mount) (guestPath : String) : List Offer :=
  mounts.filterMap fun m => m.offer tree guestPath

/-- The first of the mounts' offers at which there is a file, or else the first one of all. -/
def served (tree : Tree) (mounts : List Mount) (guestPath : String) : Option Offer :=
  ((offers tree mounts guestPath).find? Offer.there).or (offers tree mounts guestPath).head?

/-- A relative path that no mount serves is served from `/app0`. -/
def servedFor (tree : Tree) (mounts : List Mount) (guestPath : String) : Option Offer :=
  (served tree mounts guestPath).or
    (if isRelative guestPath then served tree mounts (anchored guestPath) else none)

/-- Links that the host path which is served runs into lead nowhere, or inside a mount. -/
def LinksStay (tree : Tree) (mounts : List Mount) (guestPath : String) : Prop :=
  ∀ offer, servedFor tree mounts guestPath = some offer → ∀ l, LeadsAway tree offer.path l →
    Inside tree mounts guestPath l

section Deepest

variable {start : Location} {rest base : List String} {name : String} {l : Location}

lemma canonicalize_eq_some {path : HostPath} (h : canonicalize tree path = some loc) :
    tree.entry path.start = some .dir ∧ walk tree.entry maxLinks path.start path.parts = .found loc := by
  unfold canonicalize reach at h
  split_ifs at h with hstart
  · refine ⟨hstart,?_⟩
    split at h
    · obtain rfl := Option.some.inj h
      assumption
    · cases h

lemma canonicalize_of_found (path : HostPath) (hstart : tree.entry path.start = some .dir)
    (h : walk tree.entry maxLinks path.start path.parts = .found loc) :
    canonicalize tree path = some loc := by
  unfold canonicalize reach
  rw [if_pos hstart, h]

/-- A file or directory next to what exists would exist itself. -/
lemma not_settled_next (h : canonicalize tree ⟨start,base⟩ = some loc)
    (hnext : canonicalize tree ⟨start,base ++ [name]⟩ = none) : ¬tree.Settled (loc ++ [name]) := by
  intro hsettled
  obtain ⟨hstart,hwalk⟩ := canonicalize_eq_some h
  have hdir : tree.entry loc = some .dir := by
    rcases hsettled with he | he <;> exact tree.entry_parent he
  have hname : IsName name := by
    rcases hsettled with he | he <;> exact tree.entry_isName he
  obtain ⟨links,hon⟩ := walk_append hwalk hdir
  have hfound : walk tree.entry maxLinks start (base ++ [name]) = .found (loc ++ [name]) := by
    rw [hon, walk_eq_walkParts, walkParts_name hname]
    rcases hsettled with he | he <;> rw [he] <;> rfl
  rw [canonicalize_of_found ⟨start,base ++ [name]⟩ hstart hfound] at hnext
  cases hnext

/-- The deepest ancestor exists, and the name after it is no file or directory there. -/
lemma deepest_spec {parts : List String} (h : deepest tree start parts = some (loc,rest)) :
    tree.Settled loc ∧ ∀ name more, rest = name :: more →
      IsName name ∧ ¬tree.Settled (loc ++ [name]) := by
  have hexists : ∀ {base loc}, canonicalize tree ⟨start,base⟩ = some loc → tree.Settled loc :=
    fun h => walk_settled (canonicalize_eq_some h).2 (canonicalize_eq_some h).1
  suffices hbase : ∃ base, parts.reverse = base ++ rest ∧ canonicalize tree ⟨start,base⟩ = some loc ∧
      ∀ name more, rest = name :: more →
        IsName name ∧ canonicalize tree ⟨start,base ++ [name]⟩ = none by
    obtain ⟨base,-,hloc,hnext⟩ := hbase
    refine ⟨hexists hloc,fun name more heq => ?_⟩
    obtain ⟨hname,hnone⟩ := hnext name more heq
    exact ⟨hname,not_settled_next hloc hnone⟩
  induction parts generalizing rest with
  | nil =>
    obtain ⟨loc',hloc,heq⟩ := Option.map_eq_some_iff.mp h
    obtain ⟨rfl,rfl⟩ := Prod.mk.inj heq
    exact ⟨[],rfl,hloc,by simp⟩
  | cons part before ih =>
    rw [deepest] at h
    split at h
    · rename_i hloc
      obtain ⟨rfl,rfl⟩ := Prod.mk.inj (Option.some.inj h)
      exact ⟨(part :: before).reverse,by simp,hloc,by simp⟩
    · rename_i hnone
      split_ifs at h with hname
      obtain ⟨⟨loc',rest'⟩,hdeep,heq⟩ := Option.map_eq_some_iff.mp h
      obtain ⟨rfl,rfl⟩ := Prod.mk.inj heq
      obtain ⟨base,hsplit,hloc,hnext⟩ := ih hdeep
      refine ⟨base,by simp [hsplit],hloc,fun name more heq => ?_⟩
      cases rest' with
      | nil =>
        obtain ⟨rfl,-⟩ := List.cons.inj heq
        rw [List.append_nil] at hsplit
        rw [List.reverse_cons, hsplit] at hnone
        exact ⟨hname,hnone⟩
      | cons first others =>
        obtain ⟨rfl,-⟩ := List.cons.inj heq
        exact hnext first others rfl

/-- Opening what a host path comes to stays there unless the path goes on with a link. -/
lemma opens_deepest (h : deepest tree path.start path.parts.reverse = some (loc,rest))
    (hopens : Opens tree (loc ++ rest) l) : l = loc ++ rest ∨ LeadsAway tree path l := by
  obtain ⟨hsettled,hnext⟩ := deepest_spec h
  have hwalk : walk tree.entry maxLinks [] (loc ++ rest) = .found l ∨
      walk tree.entry maxLinks [] (loc ++ rest) = .missing l := hopens
  cases rest with
  | nil =>
    rw [List.append_nil, walk_location hsettled] at hwalk
    rcases hwalk with hwalk | hwalk
    · exact .inl (by rw [← Reached.found.inj hwalk, List.append_nil])
    · cases hwalk
  | cons name more =>
    obtain ⟨hname,hnone⟩ := hnext name more rfl
    cases hentry : tree.entry (loc ++ [name]) with
    | none => exact .inl (walk_missing hentry hname hsettled hwalk)
    | some e =>
      cases e with
      | file => exact absurd (.inr hentry) hnone
      | dir => exact absurd (.inl hentry) hnone
      | link absolute parts => exact .inr ⟨loc,name,more,h,⟨absolute,parts,hentry⟩,hopens⟩

end Deepest

section Translate

lemma contain_eq_some (h : contain tree path root = some loc) :
    ∃ top, canonicalize tree root = some top ∧
    top <+: loc ∧ ∃ base rest, deepest tree path.start path.parts.reverse = some (base,rest) ∧
      base ++ rest = loc := by
  obtain ⟨top,htop,h⟩ := Option.bind_eq_some_iff.mp h
  obtain ⟨canon,hcanon,h⟩ := Option.bind_eq_some_iff.mp h
  split_ifs at h with hsub
  obtain rfl := Option.some.inj h
  obtain ⟨⟨base,rest⟩,hdeep,heq⟩ := Option.map_eq_some_iff.mp hcanon
  exact ⟨top,htop,hsub,base,rest,hdeep,heq⟩

/-- What a mount offers is contained in its directory. -/
lemma offer_contained {offer : Offer} (h : m.offer tree guestPath = some offer) :
    mountPrefixMatches guestPath m.guest ∧ contain tree offer.path m.root = some offer.location := by
  unfold Mount.offer at h
  split at h
  · cases h
  · rename_i components hcomponents
    have hmatches : mountPrefixMatches guestPath m.guest := by
      unfold Mount.components at hcomponents
      split_ifs at hcomponents with hmatches
      exact hmatches
    refine ⟨hmatches,?_⟩
    split at h
    · cases h
    · rename_i contained hcontained
      split_ifs at h
      · obtain rfl := Option.some.inj h
        exact hcontained
      · split at h
        · obtain rfl := Option.some.inj h
          exact hcontained
        · split at h
          · obtain rfl := Option.some.inj h
            exact hcontained
          · split_ifs at h
            · obtain rfl := Option.some.inj h
              assumption
            · obtain rfl := Option.some.inj h
              exact hcontained

/-- The loop over the mounts takes the first file, or else what it had, or else the first offer. -/
lemma translateFrom_eq (createFallback : Option Location) (mounts : List Mount) :
    translateFrom tree guestPath createFallback mounts =
      (((offers tree mounts guestPath).find? Offer.there).map Offer.location).or
        (createFallback.or ((offers tree mounts guestPath).head?.map Offer.location)) := by
  induction mounts generalizing createFallback with
  | nil => simp [translateFrom, offers]
  | cons m ms ih =>
    have hcons : offers tree (m :: ms) guestPath =
        (m.offer tree guestPath).toList ++ offers tree ms guestPath := by
      unfold offers
      cases hoffer : m.offer tree guestPath <;> simp [hoffer]
    rw [translateFrom, hcons]
    cases m.offer tree guestPath with
    | none => exact ih createFallback
    | some offer =>
      dsimp only
      by_cases hthere : offer.there
      · simp [hthere]
      · simp only [hthere, Bool.false_eq_true, if_false, ih]
        cases createFallback <;> simp [hthere]

lemma translate_eq : translate tree mounts guestPath =
    (served tree mounts guestPath).map Offer.location := by
  rw [translate, translateFrom_eq, served, Option.map_or, Option.none_or]

lemma resolve_eq : resolve tree mounts guestPath =
    (servedFor tree mounts guestPath).map Offer.location := by
  unfold resolve servedFor
  rw [translate_eq, translate_eq]
  cases served tree mounts guestPath with
  | some offer => rfl
  | none => by_cases hrel : isRelative guestPath <;> simp [hrel]

/-- What is served comes from a mount that matches. -/
lemma served_offer {offer : Offer} (h : served tree mounts guestPath = some offer) :
    ∃ m ∈ mounts, m.offer tree guestPath = some offer := by
  have hmem : offer ∈ offers tree mounts guestPath := by
    rcases Option.or_eq_some_iff.mp h with h | ⟨-,h⟩
    · exact List.mem_of_find?_eq_some h
    · exact List.mem_of_mem_head? h
  exact List.mem_filterMap.mp hmem

lemma servedFor_offer {offer : Offer} (h : servedFor tree mounts guestPath = some offer) :
    ∃ m ∈ mounts, m.Matches guestPath ∧ contain tree offer.path m.root = some offer.location := by
  rcases Option.or_eq_some_iff.mp h with h | ⟨-,h⟩
  · obtain ⟨m,hm,hoffer⟩ := served_offer h
    obtain ⟨hmatches,hcontained⟩ := offer_contained hoffer
    exact ⟨m,hm,.inl hmatches,hcontained⟩
  · split_ifs at h with hrel
    obtain ⟨m,hm,hoffer⟩ := served_offer h
    obtain ⟨hmatches,hcontained⟩ := offer_contained hoffer
    exact ⟨m,hm,.inr ⟨hrel,hmatches⟩,hcontained⟩

end Translate

/-- A resolved path opens inside the mounts only, unless the host path that is served runs into a
link that leads out of them. -/
theorem sandboxed_iff (tree : Tree) (mounts : List Mount) (guestPath : String) :
    Sandboxed tree mounts guestPath ↔ LinksStay tree mounts guestPath := by
  unfold Sandboxed LinksStay
  rw [resolve_eq]
  constructor
  · intro h offer hoffer l haway
    obtain ⟨m,hm,hmatches,hcontained⟩ := servedFor_offer hoffer
    obtain ⟨-,-,-,base,rest,hdeep,hloc⟩ := contain_eq_some hcontained
    obtain ⟨loc,name,more,hdeep',-,hopens⟩ := haway
    obtain ⟨rfl,rfl⟩ := Prod.mk.inj (Option.some.inj (hdeep.symm.trans hdeep'))
    exact h offer.location (by rw [hoffer]; rfl) l (hloc ▸ hopens)
  · intro h loc hloc l hopens
    obtain ⟨offer,hoffer,rfl⟩ := Option.map_eq_some_iff.mp hloc
    obtain ⟨m,hm,hmatches,hcontained⟩ := servedFor_offer hoffer
    obtain ⟨top,htop,hsub,base,rest,hdeep,heq⟩ := contain_eq_some hcontained
    rw [← heq] at hopens hsub
    rcases opens_deepest hdeep hopens with rfl | haway
    · exact ⟨m,hm,hmatches,top,htop,hsub⟩
    · exact h offer hoffer l haway

/-- A directory that holds a dangling link, and another directory that the link points into. -/
def dangling : Tree :=
  ⟨[(["sandbox"],.dir),(["sandbox","new"],.link true ["outside","x"]),(["outside"],.dir)],
    by decide,by decide,by decide⟩

/-- The link does not resolve, so its name is taken for one that is missing; opening it creates what
it points to. -/
theorem not_sandboxed_dangling : ¬∀ tree mounts guestPath, Sandboxed tree mounts guestPath := by
  intro h
  have hresolve : resolve dangling [⟨"/app0",⟨[],["sandbox"]⟩⟩] "/app0/new" =
      some ["sandbox","new"] := by decide +kernel
  have hopens : Opens dangling ["sandbox","new"] ["outside","x"] := .inr (by decide +kernel)
  obtain ⟨m,hm,-,root,hroot,hsub⟩ := h _ _ _ _ hresolve _ hopens
  obtain rfl := List.mem_singleton.mp hm
  have hsandbox : canonicalize dangling ⟨[],["sandbox"]⟩ = some ["sandbox"] := by decide +kernel
  obtain rfl := Option.some.inj (hroot.symm.trans hsandbox)
  exact absurd hsub (by decide)

end Unemups4.Files

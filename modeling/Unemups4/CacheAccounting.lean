import Unemups4.CacheDiscipline

/-! The byte count of the cache against the entries it stands for. Every operation takes
entries away and the same bytes with them, then records at most one entry and its bytes. -/
namespace Unemups4.Gnm
namespace ResourceCache

/-- Whether an entry is one the byte budget is about. -/
def counts (p : ResourceKey × Entry) : Bool := isLinearBuffer p.1.layout && !p.2.imported

/-- The bytes of the live linear buffers that are not imported. -/
def liveBytes (c : ResourceCache) : ℕ := ((c.entries.filter counts).map (·.1.size)).sum

/-- No subtraction in the loop of `trim` takes more than the counter holds. -/
def EvictFits (c : ResourceCache) : List ResourceKey → Prop
  | [] => True
  | key :: rest =>
      c.bufferBytes ≤ bufferBudgetBytes ∨
        match c.lookup key with
        | none => EvictFits c rest
        | some _ => key.size ≤ c.bufferBytes ∧
            EvictFits { c.remove key with bufferBytes := c.bufferBytes-key.size } rest

/-- No subtraction in the loop of `free_range` takes more than the counter holds. -/
def FreeFits (c : ResourceCache) : List ResourceKey → Prop
  | [] => True
  | key :: rest =>
      match c.lookup key with
      | none => FreeFits c rest
      | some entry =>
          let counted := isLinearBuffer key.layout && !entry.imported
          (counted → key.size ≤ c.bufferBytes) ∧
            FreeFits { c.remove key with
              bufferBytes := if counted then c.bufferBytes-key.size else c.bufferBytes } rest

/-- The keys `free_range` collects. -/
def overlapping (c : ResourceCache) (addr size : ℕ) : List ResourceKey :=
  (c.entries.map (·.1)).filter fun k => rangesOverlap k.addr k.size addr size

/-- Entries went, and their bytes left the counter. -/
def Drops (c d : ResourceCache) : Prop :=
  ∃ n, c.liveBytes = d.liveBytes+n ∧ d.bufferBytes = c.bufferBytes-n

/-- An entry came, and its bytes joined the counter. -/
def Adds (c d : ResourceCache) : Prop :=
  ∃ n, d.liveBytes = c.liveBytes+n ∧ d.bufferBytes = saturatingAdd c.bufferBytes n

lemma drops_of_eq {c d : ResourceCache} (hlive : d.liveBytes = c.liveBytes)
    (hbytes : d.bufferBytes = c.bufferBytes) : c.Drops d :=
  ⟨0,by simp [hlive],by simp [hbytes]⟩

lemma Drops.trans {c d e : ResourceCache} (h : c.Drops d) (h' : d.Drops e) : c.Drops e := by
  obtain ⟨n,hlive,hbytes⟩ := h
  obtain ⟨m,hlive',hbytes'⟩ := h'
  exact ⟨n+m,by omega,by omega⟩

lemma Drops.le {c d : ResourceCache} (h : c.Drops d) (hc : c.bufferBytes ≤ c.liveBytes) :
    d.bufferBytes ≤ d.liveBytes := by
  obtain ⟨n,hlive,hbytes⟩ := h
  omega

lemma Drops.exact {c d : ResourceCache} (h : c.Drops d) (hc : c.bufferBytes = c.liveBytes) :
    d.bufferBytes = d.liveBytes := by
  obtain ⟨n,hlive,hbytes⟩ := h
  omega

lemma Adds.le {c d : ResourceCache} (h : c.Adds d) (hc : c.bufferBytes ≤ c.liveBytes) :
    d.bufferBytes ≤ d.liveBytes := by
  obtain ⟨n,hlive,hbytes⟩ := h
  rw [hbytes, saturatingAdd]
  omega

/-- Below 2^64 the addition does not saturate. -/
lemma Adds.exact {c d : ResourceCache} (h : c.Adds d) (hfits : d.liveBytes ≤ u64Max)
    (hc : c.bufferBytes = c.liveBytes) : d.bufferBytes = d.liveBytes := by
  obtain ⟨n,hlive,hbytes⟩ := h
  rw [hbytes, saturatingAdd]
  omega

section Remove

variable {c : ResourceCache} {key : ResourceKey} {e : Entry}

/-- A key names one entry: the list is that entry and the rest. -/
lemma perm_cons_filter {l : List (ResourceKey × Entry)} (hkeys : (l.map (·.1)).Nodup)
    (hmem : (key,e) ∈ l) : l.Perm ((key,e) :: l.filter fun p => p.1 ≠ key) := by
  induction l with
  | nil => simp at hmem
  | cons p l ih =>
    rw [List.map_cons, List.nodup_cons] at hkeys
    rcases List.mem_cons.mp hmem with rfl | hmem
    · have hrest : l.filter (fun p => p.1 ≠ key) = l := by
        refine List.filter_eq_self.mpr fun p hp => decide_eq_true fun heq => hkeys.1 ?_
        exact List.mem_map.mpr ⟨p,hp,heq⟩
      rw [List.filter_cons_of_neg (by simp), hrest]
    · have hne : p.1 ≠ key := fun heq => hkeys.1 (List.mem_map.mpr ⟨_,hmem,heq.symm⟩)
      have hcons : (p :: l).filter (fun p => p.1 ≠ key) = p :: l.filter fun p => p.1 ≠ key := by
        simp [hne]
      rw [hcons]
      exact ((ih hkeys.2 hmem).cons p).trans (List.Perm.swap _ _ _)

lemma liveBytes_perm {c d : ResourceCache} (h : c.entries.Perm d.entries) :
    c.liveBytes = d.liveBytes :=
  ((h.filter counts).map _).sum_eq

lemma liveBytes_cons (c : ResourceCache) (p : ResourceKey × Entry) :
    liveBytes { c with entries := p :: c.entries } =
      c.liveBytes+if counts p then p.1.size else 0 := by
  by_cases hp : counts p
  · simp [liveBytes, hp, Nat.add_comm]
  · simp [liveBytes, hp]

lemma liveBytes_remove (h : c.WellFormed) (hlook : c.lookup key = some e) :
    c.liveBytes = (c.remove key).liveBytes+if counts (key,e) then key.size else 0 := by
  have hperm := perm_cons_filter h.keys (lookup_mem hlook)
  rw [liveBytes_perm (d := { c.remove key with entries := (key,e) :: (c.remove key).entries }) hperm]
  exact liveBytes_cons (c.remove key) (key,e)

lemma remove_wellFormed (h : c.WellFormed) (hlook : c.lookup key = some e) (bytes : ℕ) :
    WellFormed { c.remove key with bufferBytes := bytes } :=
  (remove_emits hlook h).1

/-- The step of both loops. -/
lemma remove_drops (h : c.WellFormed) (hlook : c.lookup key = some e) {bytes : ℕ}
    (hbytes : bytes = if counts (key,e) then c.bufferBytes-key.size else c.bufferBytes) :
    c.Drops { c.remove key with bufferBytes := bytes } := by
  refine ⟨_,liveBytes_remove h hlook,?_⟩
  rw [hbytes]
  split_ifs <;> simp

/-- What is counted is no more than what is live. -/
lemma size_le_liveBytes (h : c.WellFormed) (hlook : c.lookup key = some e) (hc : counts (key,e)) :
    key.size ≤ c.liveBytes := by
  rw [liveBytes_remove h hlook, if_pos hc]
  exact Nat.le_add_left _ _

end Remove

section Loops

variable {c : ResourceCache} {keys : List ResourceKey}

/-- The keys stand for counted entries only. -/
def Evictable (c : ResourceCache) (keys : List ResourceKey) : Prop :=
  ∀ p ∈ c.entries, p.1 ∈ keys → counts p

/-- Every counted entry has its key in the list. -/
def Covers (c : ResourceCache) (keys : List ResourceKey) : Prop :=
  ∀ p ∈ c.entries, counts p → p.1 ∈ keys

lemma Evictable.tail {key : ResourceKey} (h : c.Evictable (key :: keys)) : c.Evictable keys :=
  fun p hp hkey => h p hp (List.mem_cons_of_mem _ hkey)

lemma Evictable.counted {key : ResourceKey} {e : Entry} (h : c.Evictable (key :: keys))
    (hlook : c.lookup key = some e) : counts (key,e) :=
  h _ (lookup_mem hlook) List.mem_cons_self

lemma Evictable.drops {key : ResourceKey} {e : Entry} (hkeys : c.Evictable (key :: keys))
    (h : c.WellFormed) (hlook : c.lookup key = some e) :
    c.Drops { c.remove key with bufferBytes := c.bufferBytes-key.size } :=
  remove_drops h hlook (if_pos (hkeys.counted hlook)).symm

lemma Evictable.remove {key : ResourceKey} (h : c.Evictable keys) (bytes : ℕ) :
    Evictable { c.remove key with bufferBytes := bytes } keys :=
  fun p hp hkey => h p (List.mem_of_mem_filter hp) hkey

lemma Covers.of_lookup_none {key : ResourceKey} (h : c.Covers (key :: keys))
    (hlook : c.lookup key = none) : c.Covers keys := by
  intro p hp hc
  rcases List.mem_cons.mp (h p hp hc) with heq | hmem
  · exact absurd (heq ▸ List.mem_map_of_mem hp) (lookup_none hlook)
  · exact hmem

lemma Covers.remove {key : ResourceKey} (h : c.Covers (key :: keys)) (bytes : ℕ) :
    Covers { c.remove key with bufferBytes := bytes } keys := by
  intro p hp hc
  obtain ⟨hmem,hne⟩ := List.mem_filter.mp hp
  exact List.mem_of_ne_of_mem (of_decide_eq_true hne) (h p hmem hc)

lemma evict_drops (h : c.WellFormed) (hkeys : c.Evictable keys) : c.Drops (c.evict keys).1 := by
  induction keys generalizing c with
  | nil => exact drops_of_eq rfl rfl
  | cons key rest ih =>
    unfold evict
    split_ifs with hbudget
    · exact drops_of_eq rfl rfl
    · cases hlook : c.lookup key with
      | none => exact ih h hkeys.tail
      | some e =>
        have hstep := hkeys.drops h hlook
        exact hstep.trans (ih (remove_wellFormed h hlook _) (hkeys.tail.remove _))

/-- When the candidates run out, nothing counted is left. -/
lemma evict_budget (h : c.WellFormed) (hkeys : c.Evictable keys) (hcovers : c.Covers keys)
    (hbytes : c.bufferBytes ≤ c.liveBytes) : (c.evict keys).1.bufferBytes ≤ bufferBudgetBytes := by
  induction keys generalizing c with
  | nil =>
    have hnone : c.entries.filter counts = [] :=
      List.filter_eq_nil_iff.mpr fun p hp hc => by simpa using hcovers p hp hc
    have hzero : c.liveBytes = 0 := by simp [liveBytes, hnone]
    simp only [evict]
    omega
  | cons key rest ih =>
    unfold evict
    split_ifs with hbudget
    · exact hbudget
    · cases hlook : c.lookup key with
      | none => exact ih h hkeys.tail (hcovers.of_lookup_none hlook) hbytes
      | some e =>
        have hstep := hkeys.drops h hlook
        exact ih (remove_wellFormed h hlook _) (hkeys.tail.remove _) (hcovers.remove _)
          (hstep.le hbytes)

lemma evict_fits (h : c.WellFormed) (hkeys : c.Evictable keys)
    (hbytes : c.bufferBytes = c.liveBytes) : c.EvictFits keys := by
  induction keys generalizing c with
  | nil => trivial
  | cons key rest ih =>
    refine .inr ?_
    cases hlook : c.lookup key with
    | none => exact ih h hkeys.tail hbytes
    | some e =>
      have hstep := hkeys.drops h hlook
      refine ⟨hbytes ▸ size_le_liveBytes h hlook (hkeys.counted hlook),?_⟩
      exact ih (remove_wellFormed h hlook _) (hkeys.tail.remove _) (hstep.exact hbytes)

lemma freeKeys_drops (h : c.WellFormed) : c.Drops (c.freeKeys keys).1 := by
  induction keys generalizing c with
  | nil => exact drops_of_eq rfl rfl
  | cons key rest ih =>
    unfold freeKeys
    cases hlook : c.lookup key with
    | none => exact ih h
    | some e => exact (remove_drops h hlook rfl).trans (ih (remove_wellFormed h hlook _))

lemma freeKeys_fits (h : c.WellFormed) (hbytes : c.bufferBytes = c.liveBytes) :
    c.FreeFits keys := by
  induction keys generalizing c with
  | nil => trivial
  | cons key rest ih =>
    unfold FreeFits
    cases hlook : c.lookup key with
    | none => exact ih h hbytes
    | some e =>
      refine ⟨fun hc => hbytes ▸ size_le_liveBytes h hlook hc,?_⟩
      exact ih (remove_wellFormed h hlook _) ((remove_drops h hlook rfl).exact hbytes)

end Loops

section Trim

variable {c : ResourceCache}

lemma mem_candidates {key : ResourceKey} :
    key ∈ c.candidates ↔ ∃ p ∈ c.entries, counts p ∧ p.1 = key := by
  simp [candidates, counts, and_assoc]

lemma candidates_evictable (h : c.WellFormed) : c.Evictable c.candidates := by
  intro p hp hkey
  obtain ⟨q,hq,hc,heq⟩ := mem_candidates.mp hkey
  exact List.inj_on_of_nodup_map h.keys hq hp heq ▸ hc

lemma candidates_covers (c : ResourceCache) : c.Covers c.candidates :=
  fun p hp hc => mem_candidates.mpr ⟨p,hp,hc,rfl⟩

lemma atFlip_wellFormed (h : c.WellFormed) (now : ℕ) :
    WellFormed { c with trimmedFlip := now } :=
  ⟨h.keys,h.ids,h.minted⟩

lemma trim_drops (h : c.WellFormed) (now : ℕ) : c.Drops (c.trim now).1 := by
  have hflip : c.Drops { c with trimmedFlip := now } := drops_of_eq rfl rfl
  unfold trim
  split_ifs
  · exact drops_of_eq rfl rfl
  · dsimp only
    split_ifs
    · exact hflip
    · have h' := atFlip_wellFormed h now
      exact hflip.trans (evict_drops h' (candidates_evictable h'))

/-- A trim that runs leaves no more than the budget. -/
lemma trim_budget (h : c.WellFormed) (hbytes : c.bufferBytes ≤ c.liveBytes) {now : ℕ}
    (hnow : now ≠ c.trimmedFlip) : (c.trim now).1.bufferBytes ≤ bufferBudgetBytes := by
  have h' := atFlip_wellFormed h now
  simp only [trim, hnow, if_false]
  split_ifs with hbudget
  · exact hbudget
  · exact evict_budget h' (candidates_evictable h') (candidates_covers _) hbytes

end Trim

section Lookups

variable {c d : ResourceCache} {key : ResourceKey}

/-- Changing entries without changing what counts keeps the sum. -/
lemma liveBytes_map (c : ResourceCache) {g : ResourceKey × Entry → ResourceKey × Entry}
    (hkey : ∀ p, (g p).1 = p.1) (himp : ∀ p, (g p).2.imported = p.2.imported) :
    liveBytes { c with entries := c.entries.map g } = c.liveBytes := by
  have hcounts : counts ∘ g = counts := by
    funext p
    simp [counts, hkey, himp]
  have hsize : (fun p : ResourceKey × Entry => p.1.size) ∘ g = fun p => p.1.size := by
    funext p
    simp [hkey]
  simp [liveBytes, List.filter_map, hcounts, hsize]

lemma liveBytes_modify (c : ResourceCache) (key : ResourceKey) {f : Entry → Entry}
    (hf : ∀ e, (f e).imported = e.imported) : (c.modify key f).liveBytes = c.liveBytes := by
  refine c.liveBytes_map (fun p => ?_) (fun p => ?_)
  · split_ifs <;> rfl
  · split_ifs
    · exact hf p.2
    · rfl

lemma liveBytes_markDirty (c : ResourceCache) (hit : ResourceKey → Bool) :
    (c.markDirty hit).liveBytes = c.liveBytes := by
  refine c.liveBytes_map (fun p => ?_) (fun p => ?_) <;> split_ifs <;> rfl

lemma touch_drops (c : ResourceCache) (key : ResourceKey) : c.Drops (c.touch key) :=
  drops_of_eq (liveBytes_modify c key fun _ => rfl) rfl

lemma markDirty_drops (c : ResourceCache) (hit : ResourceKey → Bool) : c.Drops (c.markDirty hit) :=
  drops_of_eq (liveBytes_markDirty c hit) rfl

/-- Recording an entry the budget is not about. -/
lemma insert_drops {e : Entry} (hc : counts (key,e) = false) (next : ℕ) :
    c.Drops { c with nextId := next, entries := (key,e) :: c.entries } := by
  refine drops_of_eq ?_ rfl
  exact (liveBytes_cons { c with nextId := next } (key,e)).trans (by simp [hc, liveBytes])

lemma insert_adds {e : Entry} (hc : counts (key,e)) (next : ℕ) :
    c.Adds { c with
      nextId := next
      entries := (key,e) :: c.entries
      bufferBytes := saturatingAdd c.bufferBytes key.size } := by
  refine ⟨key.size,?_,rfl⟩
  exact (liveBytes_cons { c with nextId := next } (key,e)).trans (by simp [hc, liveBytes])

/-- A recipe counts the entry it makes exactly when the budget is about it. -/
def Recipe.Accounts (r : Recipe) (key : ResourceKey) : Prop :=
  r.account = (isLinearBuffer key.layout && !r.imported)

/-- A first use: the entry and its bytes. -/
lemma finish_accounts {r : Recipe} (hr : r.Accounts key) {e : Entry} (he : e.imported = r.imported)
    (next : ℕ) :
    c.Drops (acquireFinish { c with nextId := next } key r (.miss e)).1 ∨
      c.Adds (acquireFinish { c with nextId := next } key r (.miss e)).1 := by
  have hcounts : counts (key,e) = r.account := by
    rw [hr, ← he]
    rfl
  cases hacc : r.account with
  | false =>
    refine .inl ?_
    simpa [acquireFinish, hacc] using insert_drops (c := c) (hcounts.trans hacc) next
  | true =>
    refine .inr ?_
    simpa [acquireFinish, hacc] using insert_adds (c := c) (hcounts.trans hacc) next

lemma Reads.accounts {r : Recipe} (hr : r.Accounts key) {a : Acquired} {cmds : List ResourceCmd}
    (h : Reads c key r a d cmds) :
    c.Drops (d.acquireFinish key r a).1 ∨ c.Adds (d.acquireFinish key r a).1 := by
  cases h with
  | clean => exact .inl (c.touch_drops key)
  | unreadable => exact .inl (c.touch_drops key)
  | reupload =>
    have hclear := liveBytes_modify (c.touch key) key
      (show ∀ e : Entry, { e with dirty := false : Entry }.imported = e.imported from fun _ => rfl)
    exact .inl ((c.touch_drops key).trans (drops_of_eq hclear rfl))
  | imported _ himp => exact finish_accounts hr himp.symm _
  | filled _ himp => exact finish_accounts hr (by simpa using himp) _
  | unfilled _ himp => exact finish_accounts hr (by simpa using himp) _

lemma acquire_accounts (h : c.WellFormed) {r : Recipe} (hr : r.Accounts key) {now id : ℕ}
    {cmds : List ResourceCmd} {ws : List WatchOp}
    (hacquire : c.acquire now key r = some (id,d,cmds,ws)) :
    ∃ t, c.Drops t ∧ (t.Drops d ∨ t.Adds d) := by
  unfold acquire at hacquire
  cases hread : c.acquireRead now key r with
  | none => simp [hread] at hacquire
  | some t =>
    obtain ⟨a,u,out⟩ := t
    simp only [hread, Option.some.injEq] at hacquire
    obtain ⟨cmds',hreads,rfl⟩ := acquireRead_reads hread
    cases hacquire
    exact ⟨(c.trim now).1,trim_drops h now,hreads.accounts hr⟩

end Lookups

end ResourceCache

open ResourceCache

/-- A texture or render target is asked for under a key of its own kind; any key may be
asked for as a buffer. -/
def CacheOp.Keyed : CacheOp → Prop
  | .getTexture _ _ key _ _ | .getRenderTarget key _ _ => isLinearBuffer key.layout = false
  | _ => True

section Run

variable (pol : CachePolicy) (detile : Bytes → SurfaceLayout → Option Bytes)
  (ok : ResourceCache → Prop)

/-- The states a sequence of operations reaches through states that meet the condition. -/
inductive KeyedRun : ResourceCache → Prop
  | new : KeyedRun .new
  | step {c d : ResourceCache} {out : List ResourceCmd} (op : CacheOp) :
      KeyedRun c → op.Keyed → op.apply pol detile c = some (d,out) → ok d → KeyedRun d
  | rehash {c : ResourceCache} {entries : List (ResourceKey × Entry)} :
      KeyedRun c → entries.Perm c.entries → KeyedRun { c with entries := entries }

variable {pol detile ok}

/-- One operation: entries go, then at most one comes. -/
lemma CacheOp.apply_accounts {c d : ResourceCache} {out : List ResourceCmd} {op : CacheOp}
    (h : c.WellFormed) (hkeyed : op.Keyed) (hop : op.apply pol detile c = some (d,out)) :
    ∃ t, c.Drops t ∧ (t.Drops d ∨ t.Adds d) := by
  have hdrop {e : ResourceCache} (he : c.Drops e) : ∃ t, c.Drops t ∧ (t.Drops e ∨ t.Adds e) :=
    ⟨c,drops_of_eq rfl rfl,.inl he⟩
  cases op with
  | get now read key =>
    obtain ⟨r,hr,heq⟩ := Option.map_eq_some_iff.mp hop
    cases heq
    exact acquire_accounts h (r := bufferRecipe pol read key) rfl hr
  | getTexture now read key surface format =>
    obtain ⟨r,hr,heq⟩ := Option.map_eq_some_iff.mp hop
    cases heq
    have hlinear : isLinearBuffer key.layout = false := hkeyed
    refine acquire_accounts h (r := textureRecipe detile read key surface format) ?_ hr
    simp [Recipe.Accounts, textureRecipe, hlinear]
  | getRenderTarget key surface format =>
    obtain ⟨⟨id,r⟩,hr,rfl⟩ := Option.map_eq_some_iff.mp hop
    have hlinear : isLinearBuffer key.layout = false := hkeyed
    obtain ⟨_,-,rfl,rfl,rfl⟩ | ⟨-,rfl,rfl,rfl⟩ := getRenderTarget_eq_some hr
    · exact hdrop (c.touch_drops key)
    · exact hdrop (insert_drops (by simp [counts, hlinear]) _)
  | getSampler desc =>
    obtain ⟨⟨id,r⟩,hr,rfl⟩ := Option.map_eq_some_iff.mp hop
    obtain ⟨-,rfl,rfl⟩ | ⟨-,rfl,rfl,rfl⟩ := getSampler_eq_some hr
    · exact hdrop (drops_of_eq rfl rfl)
    · exact hdrop (drops_of_eq rfl rfl)
  | getWhiteDummy =>
    obtain ⟨⟨id,r⟩,hr,rfl⟩ := Option.map_eq_some_iff.mp hop
    obtain ⟨-,rfl,rfl⟩ | ⟨-,rfl,rfl,rfl⟩ := getWhiteDummy_eq_some hr
    · exact hdrop (drops_of_eq rfl rfl)
    · exact hdrop (drops_of_eq rfl rfl)
  | trim now =>
    have heq : (c.trim now).1 = d := congrArg Prod.fst (Option.some.inj hop)
    exact hdrop (heq ▸ trim_drops h now)
  | applyDirty dirtied =>
    cases hop
    exact hdrop (c.markDirty_drops _)
  | invalidateRange addr size =>
    cases hop
    exact hdrop (c.markDirty_drops _)
  | freeRange addr size =>
    cases hop
    exact hdrop (freeKeys_drops h)

namespace KeyedRun

variable {c : ResourceCache}

lemma wellFormed (h : KeyedRun pol detile ok c) : c.WellFormed := by
  induction h with
  | new => exact new_wellFormed
  | step op _ _ hop _ ih => exact (CacheOp.apply_emits hop ih).1
  | rehash _ hperm ih => exact (rehash_emits hperm ih).1

/-- The counter never holds more than is live. -/
lemma bytes_le (h : KeyedRun pol detile ok c) : c.bufferBytes ≤ c.liveBytes := by
  induction h with
  | new => exact le_rfl
  | step op hrun hkeyed hop _ ih =>
    obtain ⟨t,hdrops,hrest⟩ := CacheOp.apply_accounts hrun.wellFormed hkeyed hop
    rcases hrest with hrest | hrest
    · exact hrest.le (hdrops.le ih)
    · exact hrest.le (hdrops.le ih)
  | rehash _ hperm ih => exact ih.trans_eq (liveBytes_perm hperm).symm

/-- While what is live fits the counter, the counter is exact. -/
lemma bytes_eq (h : KeyedRun pol detile ok c) (hok : ∀ d, ok d → d.liveBytes ≤ u64Max) :
    c.bufferBytes = c.liveBytes := by
  induction h with
  | new => rfl
  | @step c d out op hrun hkeyed hop hd ih =>
    obtain ⟨t,hdrops,hrest⟩ := CacheOp.apply_accounts hrun.wellFormed hkeyed hop
    rcases hrest with hrest | hrest
    · exact hrest.exact (hdrops.exact ih)
    · exact hrest.exact (hok d hd) (hdrops.exact ih)
  | rehash _ hperm ih => exact ih.trans (liveBytes_perm hperm).symm

end KeyedRun

end Run

/-- In every state a sequence of operations reaches, the counter is at most the bytes of the
live linear buffers that are not imported, and a trim on a new flip leaves at most the
budget. While those bytes fit the counter, the two are equal and the next loop of `trim` or
`free_range` takes away only what is there. -/
theorem keyedRun_accounts (pol : CachePolicy)
    (detile : Bytes → SurfaceLayout → Option Bytes) :
    (∀ c, KeyedRun pol detile (fun _ => True) c →
      c.bufferBytes ≤ c.liveBytes ∧
        ∀ now ≠ c.trimmedFlip, (c.trim now).1.bufferBytes ≤ bufferBudgetBytes) ∧
    ∀ c, KeyedRun pol detile (fun d => d.liveBytes ≤ u64Max) c →
      c.bufferBytes = c.liveBytes ∧
        (∀ now, EvictFits { c with trimmedFlip := now } c.candidates) ∧
        ∀ addr size, c.FreeFits (c.overlapping addr size) := by
  constructor
  · intro c h
    exact ⟨h.bytes_le,fun now hnow => trim_budget h.wellFormed h.bytes_le hnow⟩
  · intro c h
    have hbytes := h.bytes_eq fun _ hd => hd
    refine ⟨hbytes,fun now => ?_,fun addr size => freeKeys_fits h.wellFormed hbytes⟩
    have h' := atFlip_wellFormed h.wellFormed now
    exact evict_fits h' (candidates_evictable h') hbytes

/-- A large buffer and a small constant buffer: the next flip evicts the large one. -/
theorem keyedRun_accounts_evicted :
    ∃ c, KeyedRun copyPolicy (fun bytes _ => some bytes) (fun d => d.liveBytes ≤ u64Max) c ∧
      c.liveBytes = 2^27+4 ∧ c.bufferBytes = c.liveBytes ∧
      (c.trim 1).1.bufferBytes ≤ bufferBudgetBytes := by
  let unreadable (_ _ : ℕ) : Option Bytes := none
  let large : ResourceKey × Entry := (⟨0x1000000,2^27,.vertexBuf⟩,⟨1,false,false,true,0⟩)
  let small : ResourceKey × Entry := (⟨0x1000,4,.constBuf⟩,⟨2,false,false,true,0⟩)
  have h {ok : ResourceCache → Prop} (h₁ : ok ⟨[large],[],2,none,0,2^27⟩)
      (h₂ : ok ⟨[small,large],[],3,none,0,2^27+4⟩) :
      KeyedRun copyPolicy (fun bytes _ => some bytes) ok ⟨[small,large],[],3,none,0,2^27+4⟩ := by
    have hlarge : CacheOp.apply copyPolicy (fun bytes _ => some bytes) .new
        (.get 0 unreadable large.1) =
        some (⟨[large],[],2,none,0,2^27⟩,[.createBuffer 1 (2^27)]) := by decide +kernel
    have hsmall : CacheOp.apply copyPolicy (fun bytes _ => some bytes)
        ⟨[large],[],2,none,0,2^27⟩ (.get 0 unreadable small.1) =
        some (⟨[small,large],[],3,none,0,2^27+4⟩,[.createBuffer 2 4]) := by decide +kernel
    have hrun := KeyedRun.step (.get 0 unreadable large.1) .new trivial hlarge h₁
    exact .step (.get 0 unreadable small.1) hrun trivial hsmall h₂
  have hfits := @h (fun d => d.liveBytes ≤ u64Max) (by decide +kernel) (by decide +kernel)
  have htrim := ((keyedRun_accounts _ _).1 _ (h trivial trivial)).2 1 (by decide +kernel)
  exact ⟨_,hfits,by decide +kernel,((keyedRun_accounts _ _).2 _ hfits).1,htrim⟩

/-- Two buffers of 2^63 bytes: the counter stops one short of their sum. -/
theorem not_accounts_saturated :
    ¬∀ c, KeyedRun copyPolicy (fun bytes _ => some bytes) (fun _ => True) c →
      c.bufferBytes = c.liveBytes := by
  intro h
  let unreadable (_ _ : ℕ) : Option Bytes := none
  have h₁ : KeyedRun copyPolicy (fun bytes _ => some bytes) (fun _ => True) _ :=
    .step (.get 0 unreadable ⟨0,2^63,.vertexBuf⟩) .new trivial rfl trivial
  have h₂ := h₁.step (.get 0 unreadable ⟨2^63,2^63,.vertexBuf⟩) trivial rfl trivial
  have heq := h _ h₂
  revert heq
  decide

end Unemups4.Gnm

import Unemups4.Lifetime
import Unemups4.ResourceCache

/-! Every cache operation restores the pairing of live entries and backend objects:
the commands it emits are a lawful continuation of the ids' lifetimes, from the live
ids before it to those after. -/
namespace Unemups4.Gnm
open Lifetime

def ResourceCmd.event : ResourceCmd → Event
  | .createBuffer id _ | .importBuffer id _ _ | .createImage id _ _ _ | .createSampler id _
  | .createRenderTarget id _ _ _ => .create id
  | .uploadBuffer id _ _ | .uploadImage id _ => .use id
  | .freeResource id => .free id

namespace ResourceCache

/-- The ids of the live entries, samplers and the white dummy. -/
def liveIds (c : ResourceCache) : List ℕ :=
  c.entries.map (·.2.id) ++ (c.samplers.map (·.2) ++ c.whiteDummy.toList)

structure WellFormed (c : ResourceCache) : Prop where
  keys : (c.entries.map (·.1)).Nodup
  ids : c.liveIds.Nodup
  minted : ∀ id ∈ c.liveIds, id < c.nextId

def ledger (c : ResourceCache) (h : c.WellFormed) : Ledger where
  next := c.nextId
  live := c.liveIds.toFinset
  bound := fun id hid => h.minted id (List.mem_toFinset.mp hid)

/-- `cmds` leads from the live ids of `c` to those of `c'`. -/
def Emits (c : ResourceCache) (cmds : List ResourceCmd) (c' : ResourceCache) : Prop :=
  ∀ h : c.WellFormed, ∃ h' : c'.WellFormed,
    Follows (c.ledger h) (cmds.map (·.event)) (c'.ledger h')

lemma Emits.trans {c d e : ResourceCache} {cmds cmds' : List ResourceCmd} (h : c.Emits cmds d)
    (h' : d.Emits cmds' e) : c.Emits (cmds ++ cmds') e := by
  intro hc
  obtain ⟨hd,hcd⟩ := h hc
  obtain ⟨he,hde⟩ := h' hd
  refine ⟨he,?_⟩
  rw [List.map_append]
  exact hcd.append hde

/-- A step that keeps keys, ids and the allocator emits nothing. -/
lemma emits_nil {c c' : ResourceCache} (hkeys : c'.entries.map (·.1) = c.entries.map (·.1))
    (hids : c'.liveIds = c.liveIds) (hnext : c'.nextId = c.nextId) : c.Emits [] c' := by
  intro h
  have h' : c'.WellFormed := ⟨hkeys ▸ h.keys,hids ▸ h.ids,by rw [hids, hnext]; exact h.minted⟩
  refine ⟨h',?_⟩
  have heq : c'.ledger h' = c.ledger h := Ledger.ext hnext (by simp [ledger, hids])
  rw [heq]
  exact .nil _

lemma lookup_mem {c : ResourceCache} {key : ResourceKey} {e : Entry}
    (h : c.lookup key = some e) : (key,e) ∈ c.entries := by
  obtain ⟨l₁,l₂,heq,-⟩ := List.lookup_eq_some_iff.mp h
  rw [heq]
  simp

lemma lookup_none {c : ResourceCache} {key : ResourceKey} (h : c.lookup key = none) :
    key ∉ c.entries.map (·.1) := by
  intro hmem
  obtain ⟨p,hp,heq⟩ := List.mem_map.mp hmem
  have := List.lookup_eq_none_iff.mp h p hp
  simp [heq] at this

section Modify

variable (c : ResourceCache) (key : ResourceKey)

lemma modify_keys (f : Entry → Entry) :
    (c.modify key f).entries.map (·.1) = c.entries.map (·.1) := by
  simp only [modify, List.map_map]
  refine List.map_congr_left fun p _ => ?_
  simp only [Function.comp_apply]
  split_ifs <;> rfl

lemma modify_emits {f : Entry → Entry} (hf : ∀ e, (f e).id = e.id) : c.Emits [] (c.modify key f) := by
  refine emits_nil (c.modify_keys key f) ?_ rfl
  simp only [liveIds, modify, List.map_map]
  congr 1
  refine List.map_congr_left fun p _ => ?_
  simp only [Function.comp_apply]
  split_ifs
  · exact hf p.2
  · rfl

lemma markDirty_emits (hit : ResourceKey → Bool) : c.Emits [] (c.markDirty hit) := by
  refine emits_nil ?_ ?_ rfl
  · simp only [markDirty, List.map_map]
    refine List.map_congr_left fun p _ => ?_
    simp only [Function.comp_apply]
    split_ifs <;> rfl
  · simp only [liveIds, markDirty, List.map_map]
    congr 1
    refine List.map_congr_left fun p _ => ?_
    simp only [Function.comp_apply]
    split_ifs <;> rfl

end Modify

/-- Removing a key drops exactly the id of its entry. -/
lemma mem_liveIds_remove {c : ResourceCache} (h : c.WellFormed) {key : ResourceKey} {e : Entry}
    (he : c.lookup key = some e) (x : ℕ) :
    x ∈ (c.remove key).liveIds ↔ x ∈ c.liveIds ∧ x ≠ e.id := by
  have hmem := lookup_mem he
  have hnodup := List.nodup_append.mp h.ids
  have hkey := List.inj_on_of_nodup_map h.keys
  have hid := List.inj_on_of_nodup_map hnodup.1
  simp only [liveIds, remove, List.mem_append, List.mem_map, List.mem_filter, decide_eq_true_eq]
  constructor
  · rintro (⟨p,⟨hp,hne⟩,rfl⟩ | hx)
    · refine ⟨.inl ⟨p,hp,rfl⟩,fun heq => hne ?_⟩
      rw [hid hp hmem heq]
    · refine ⟨.inr hx,fun heq => ?_⟩
      exact hnodup.2.2 e.id (List.mem_map_of_mem hmem) x (by simpa using hx) heq.symm
  · rintro ⟨⟨p,hp,rfl⟩ | hx,hne⟩
    · refine .inl ⟨p,⟨hp,fun heq => hne ?_⟩,rfl⟩
      rw [hkey hp hmem heq]
    · exact .inr hx

lemma remove_emits {c : ResourceCache} {key : ResourceKey} {e : Entry} {bytes : ℕ}
    (he : c.lookup key = some e) :
    c.Emits [.freeResource e.id] { c.remove key with bufferBytes := bytes } := by
  intro h
  have hsub : (c.remove key).entries.Sublist c.entries := List.filter_sublist
  have h' : WellFormed { c.remove key with bufferBytes := bytes } := by
    refine ⟨h.keys.sublist (hsub.map _),?_,?_⟩
    · exact h.ids.sublist ((hsub.map _).append (List.Sublist.refl _))
    · intro x hx
      exact h.minted x ((mem_liveIds_remove h he x).mp hx).1
  refine ⟨h',?_⟩
  have hlive : e.id ∈ (c.ledger h).live := by
    refine List.mem_toFinset.mpr (List.mem_append_left _ ?_)
    exact List.mem_map_of_mem (lookup_mem he)
  have heq : ledger { c.remove key with bufferBytes := bytes } h' = (c.ledger h).free e.id := by
    refine Ledger.ext rfl ?_
    ext x
    have hx : x ∈ liveIds { c.remove key with bufferBytes := bytes } ↔ x ∈ c.liveIds ∧ x ≠ e.id :=
      mem_liveIds_remove h he x
    simpa [ledger, Ledger.free, and_comm] using hx
  rw [heq]
  exact .free hlive (.nil _)

section Frees

variable {c d : ResourceCache} {keys : List ResourceKey} {cmds : List ResourceCmd}

/-- Entries of the given keys are dropped one after the other, and what each named is freed. -/
inductive Frees (keys : List ResourceKey) : ResourceCache → List ResourceCmd → ResourceCache → Prop
  | none (c : ResourceCache) : Frees keys c [] c
  | drop {c d : ResourceCache} {cmds : List ResourceCmd} {key : ResourceKey} {entry : Entry}
      (bytes : ℕ) : key ∈ keys → c.lookup key = some entry →
      Frees keys { c.remove key with bufferBytes := bytes } cmds d →
      Frees keys c (.freeResource entry.id :: cmds) d

namespace Frees

lemma mono {keys' : List ResourceKey} (h : Frees keys c cmds d) (hsub : keys ⊆ keys') :
    Frees keys' c cmds d := by
  induction h with
  | none c => exact .none c
  | drop bytes hkey hlook _ ih => exact .drop bytes (hsub hkey) hlook ih

lemma emits (h : Frees keys c cmds d) : c.Emits cmds d := by
  induction h with
  | none c => exact emits_nil rfl rfl rfl
  | drop bytes _ hlook _ ih => exact (remove_emits hlook).trans ih

lemma entries (h : Frees keys c cmds d) : d.entries ⊆ c.entries := by
  induction h with
  | none c => exact List.Subset.refl _
  | drop bytes _ _ _ ih => exact fun p hp => List.mem_of_mem_filter (ih hp)

lemma keeps (h : Frees keys c cmds d) {p : ResourceKey × Entry} (hp : p ∈ c.entries)
    (hkey : p.1 ∉ keys) : p ∈ d.entries := by
  induction h with
  | none c => exact hp
  | @drop c d cmds key entry bytes hmem _ _ ih =>
    have hne : p.1 ≠ key := fun heq => hkey (heq ▸ hmem)
    exact ih (List.mem_filter.mpr ⟨hp,decide_eq_true hne⟩)

lemma named (h : Frees keys c cmds d) :
    ∀ cmd ∈ cmds, ∃ p ∈ c.entries, p.1 ∈ keys ∧ cmd = .freeResource p.2.id := by
  induction h with
  | none c => simp
  | drop bytes hkey hlook _ ih =>
    intro cmd hcmd
    rcases List.mem_cons.mp hcmd with rfl | hcmd
    · exact ⟨_,lookup_mem hlook,hkey,rfl⟩
    · obtain ⟨p,hp,hkey,heq⟩ := ih cmd hcmd
      exact ⟨p,List.mem_of_mem_filter hp,hkey,heq⟩

lemma frame (h : Frees keys c cmds d) : d.samplers = c.samplers ∧ d.whiteDummy = c.whiteDummy := by
  induction h with
  | none c => exact ⟨rfl,rfl⟩
  | drop bytes _ _ _ ih => exact ih

end Frees

/-- The loop of `trim`. -/
lemma evict_frees (c : ResourceCache) (keys : List ResourceKey) :
    Frees keys c (c.evict keys).2 (c.evict keys).1 := by
  induction keys generalizing c with
  | nil => exact .none c
  | cons key rest ih =>
    have hrest := List.subset_cons_self key rest
    unfold evict
    split_ifs with hbudget
    · exact .none c
    · cases hlook : c.lookup key with
      | none => exact (ih c).mono hrest
      | some entry => exact .drop _ List.mem_cons_self hlook ((ih _).mono hrest)

lemma freeKeys_frees (c : ResourceCache) (keys : List ResourceKey) :
    Frees keys c (c.freeKeys keys).2.1 (c.freeKeys keys).1 := by
  induction keys generalizing c with
  | nil => exact .none c
  | cons key rest ih =>
    have hrest := List.subset_cons_self key rest
    unfold freeKeys
    cases hlook : c.lookup key with
    | none => exact (ih c).mono hrest
    | some entry => exact .drop _ List.mem_cons_self hlook ((ih _).mono hrest)

end Frees

lemma mintId_eq_some {c c' : ResourceCache} {id : ℕ} (h : c.mintId = some (id,c')) :
    id = c.nextId ∧ c' = { c with nextId := c.nextId+1 } := by
  unfold mintId at h
  split_ifs at h
  cases h
  exact ⟨rfl,rfl⟩

/-- A fresh id that joins the live ones is created by the command. -/
lemma emits_create {c c' : ResourceCache} {cmd : ResourceCmd}
    (hkeys : c.WellFormed → (c'.entries.map (·.1)).Nodup)
    (hids : c'.liveIds.Perm (c.nextId :: c.liveIds)) (hnext : c'.nextId = c.nextId+1)
    (hcmd : cmd.event = .create c.nextId) : c.Emits [cmd] c' := by
  intro h
  have hfresh : c.nextId ∉ c.liveIds := fun hmem => by
    have := h.minted _ hmem
    omega
  have h' : c'.WellFormed := by
    refine ⟨hkeys h,hids.nodup_iff.mpr (List.nodup_cons.mpr ⟨hfresh,h.ids⟩),?_⟩
    intro x hx
    rw [hnext]
    rcases List.mem_cons.mp (hids.mem_iff.mp hx) with rfl | hx
    · omega
    · have := h.minted x hx
      omega
  refine ⟨h',?_⟩
  have heq : c'.ledger h' = (c.ledger h).create c.nextId le_rfl := by
    refine Ledger.ext hnext ?_
    simp only [ledger, Ledger.create, List.toFinset_eq_of_perm _ _ hids, List.toFinset_cons]
  rw [List.map_singleton, hcmd, heq]
  exact .create le_rfl (.nil _)

/-- An upload to a live id. -/
lemma emits_use {c : ResourceCache} {cmd : ResourceCmd} {id : ℕ} (hid : id ∈ c.liveIds)
    (hcmd : cmd.event = .use id) : c.Emits [cmd] c := by
  intro h
  refine ⟨h,?_⟩
  rw [List.map_singleton, hcmd]
  exact .use (List.mem_toFinset.mpr hid) (.nil _)

lemma trim_emits (c : ResourceCache) (now : ℕ) : c.Emits (c.trim now).2 (c.trim now).1 := by
  unfold trim
  split_ifs with hflip
  · exact emits_nil rfl rfl rfl
  · have htouch : c.Emits [] { c with trimmedFlip := now } := emits_nil rfl rfl rfl
    dsimp only
    split_ifs with hbudget
    · exact htouch
    · exact htouch.trans (evict_frees _ _).emits

/-- What a recipe's commands do to the id they are made for. -/
structure Recipe.Lawful (r : Recipe) : Prop where
  create : ∀ id, (r.create id).event = .create id
  upload : ∀ id cmd, r.upload id = some cmd → cmd.event = .use id

lemma lookup_id_live {c : ResourceCache} {key : ResourceKey} {e : Entry}
    (h : c.lookup key = some e) : e.id ∈ c.liveIds :=
  List.mem_append_left _ (List.mem_map_of_mem (lookup_mem h))

/-- Recording a first use under the id just minted. -/
lemma insert_emits {c : ResourceCache} {key : ResourceKey} {cmd : ResourceCmd} (entry : Entry)
    (bytes : ℕ) (hlook : c.lookup key = none) (hid : entry.id = c.nextId)
    (hcmd : cmd.event = .create c.nextId) :
    c.Emits [cmd] { c with
      nextId := c.nextId+1
      entries := (key,entry) :: c.entries
      bufferBytes := bytes } := by
  refine emits_create (fun h => ?_) ?_ rfl hcmd
  · exact List.nodup_cons.mpr ⟨lookup_none hlook,h.keys⟩
  · simp [liveIds, hid]

/-- What a lookup can do after the trim. -/
inductive Reads (c : ResourceCache) (key : ResourceKey) (r : Recipe) :
    Acquired → ResourceCache → List ResourceCmd → Prop
  | clean {e : Entry} : c.lookup key = some e → r.clean e →
      Reads c key r (.hit e.id) (c.touch key) []
  | unreadable {e : Entry} : c.lookup key = some e → ¬r.clean e → r.upload e.id = none →
      Reads c key r (.hit e.id) (c.touch key) []
  | reupload {e : Entry} {cmd : ResourceCmd} : c.lookup key = some e → ¬r.clean e →
      r.upload e.id = some cmd →
      Reads c key r (.hit e.id)
        ((c.touch key).modify key fun e => { e with dirty := false }) [cmd]
  | imported : c.lookup key = none → r.imported →
      Reads c key r (.miss ⟨c.nextId,true,false,false,c.trimmedFlip⟩)
        { c with nextId := c.nextId+1 } [r.create c.nextId]
  | filled {cmd : ResourceCmd} : c.lookup key = none → ¬r.imported →
      r.upload c.nextId = some cmd →
      Reads c key r (.miss ⟨c.nextId,false,false,false,c.trimmedFlip⟩)
        { c with nextId := c.nextId+1 } [r.create c.nextId,cmd]
  | unfilled : c.lookup key = none → ¬r.imported → r.upload c.nextId = none →
      Reads c key r (.miss ⟨c.nextId,false,false,true,c.trimmedFlip⟩)
        { c with nextId := c.nextId+1 } [r.create c.nextId]

lemma acquireRead_reads {c c' : ResourceCache} {now : ℕ} {key : ResourceKey} {r : Recipe}
    {a : Acquired} {cmds : List ResourceCmd} (h : c.acquireRead now key r = some (a,c',cmds)) :
    ∃ cmds', Reads (c.trim now).1 key r a c' cmds' ∧ cmds = (c.trim now).2 ++ cmds' := by
  simp only [acquireRead] at h
  generalize c.trim now = t at h ⊢
  obtain ⟨d,freed⟩ := t
  dsimp only at h ⊢
  cases hlook : d.lookup key with
  | some e =>
    simp only [hlook] at h
    split_ifs at h with hclean
    · cases h
      exact ⟨[],.clean hlook hclean,by simp⟩
    · cases hup : r.upload e.id with
      | none =>
        simp only [hup] at h
        cases h
        exact ⟨[],.unreadable hlook hclean hup,by simp⟩
      | some cmd =>
        simp only [hup] at h
        cases h
        exact ⟨[cmd],.reupload hlook hclean hup,rfl⟩
  | none =>
    simp only [hlook] at h
    cases hmint : d.mintId with
    | none => simp [hmint] at h
    | some m =>
      obtain ⟨id,e⟩ := m
      obtain ⟨rfl,rfl⟩ := mintId_eq_some hmint
      simp only [hmint] at h
      split_ifs at h with himp
      · cases h
        exact ⟨_,.imported hlook himp,rfl⟩
      · cases hup : r.upload d.nextId with
        | none =>
          simp only [hup] at h
          cases h
          exact ⟨_,.unfilled hlook himp hup,rfl⟩
        | some cmd =>
          simp only [hup] at h
          cases h
          exact ⟨_,.filled hlook himp hup,rfl⟩

lemma touch_emits (c : ResourceCache) (key : ResourceKey) : c.Emits [] (c.touch key) :=
  c.modify_emits key fun _ => rfl

/-- Once the lookup is finished its commands account for the live ids. -/
lemma Reads.emits {c c' : ResourceCache} {key : ResourceKey} {r : Recipe} (hr : r.Lawful)
    {a : Acquired} {cmds : List ResourceCmd} (h : Reads c key r a c' cmds) :
    c.Emits cmds (c'.acquireFinish key r a).1 := by
  cases h with
  | clean => exact c.touch_emits key
  | unreadable => exact c.touch_emits key
  | reupload hlook _ hup =>
    have huse := emits_use (lookup_id_live hlook) (hr.upload _ _ hup)
    have hclear := (c.touch key).modify_emits key
      (show ∀ e : Entry, { e with dirty := false : Entry }.id = e.id from fun _ => rfl)
    exact huse.trans ((c.touch_emits key).trans hclear)
  | imported hlook => exact insert_emits _ _ hlook rfl (hr.create _)
  | filled hlook _ hup =>
    refine (insert_emits _ _ hlook rfl (hr.create _)).trans (emits_use ?_ (hr.upload _ _ hup))
    simp [liveIds]
  | unfilled hlook => exact insert_emits _ _ hlook rfl (hr.create _)

theorem acquire_emits {c c' : ResourceCache} {now id : ℕ} {key : ResourceKey} {r : Recipe}
    (hr : r.Lawful) {cmds : List ResourceCmd} {ws : List WatchOp}
    (h : c.acquire now key r = some (id,c',cmds,ws)) : c.Emits cmds c' := by
  unfold acquire at h
  cases hread : c.acquireRead now key r with
  | none => simp [hread] at h
  | some t =>
    obtain ⟨a,d,out⟩ := t
    simp only [hread, Option.some.injEq] at h
    obtain ⟨cmds',hreads,rfl⟩ := acquireRead_reads hread
    cases h
    exact (c.trim_emits now).trans (hreads.emits hr)

lemma bufferRecipe_lawful (pol : CachePolicy) (read : ℕ → ℕ → Option Bytes) (key : ResourceKey) :
    (bufferRecipe pol read key).Lawful := by
  refine ⟨fun id => ?_,fun id cmd h => ?_⟩
  · simp only [bufferRecipe]
    split_ifs <;> rfl
  · obtain ⟨bytes,-,rfl⟩ := Option.map_eq_some_iff.mp h
    rfl

lemma textureRecipe_lawful (detile : Bytes → SurfaceLayout → Option Bytes)
    (read : ℕ → ℕ → Option Bytes) (key : ResourceKey) (surface : SurfaceLayout)
    (format : TextureFormat) : (textureRecipe detile read key surface format).Lawful := by
  refine ⟨fun id => rfl,fun id cmd h => ?_⟩
  obtain ⟨bytes,-,h⟩ := Option.bind_eq_some_iff.mp h
  obtain ⟨texels,-,rfl⟩ := Option.map_eq_some_iff.mp h
  rfl

lemma getRenderTarget_eq_some {c c' : ResourceCache} {key : ResourceKey} {surface : SurfaceLayout}
    {format : ColorFormat} {id : ℕ} {cmds : List ResourceCmd}
    (h : c.getRenderTarget key surface format = some (id,c',cmds)) :
    (∃ e, c.lookup key = some e ∧ e.id = id ∧ c.touch key = c' ∧ cmds = []) ∨
      c.lookup key = none ∧ id = c.nextId ∧
        c' = { c with nextId := c.nextId+1,
                      entries := (key,⟨c.nextId,false,true,false,c.trimmedFlip⟩) :: c.entries } ∧
        cmds = [.createRenderTarget c.nextId surface.width surface.height format] := by
  unfold getRenderTarget at h
  cases hlook : c.lookup key with
  | some e =>
    simp only [hlook, Option.some.injEq] at h
    cases h
    exact .inl ⟨e,rfl,rfl,rfl,rfl⟩
  | none =>
    cases hmint : c.mintId with
    | none => simp [hlook, hmint] at h
    | some m =>
      obtain ⟨fresh,d⟩ := m
      obtain ⟨rfl,rfl⟩ := mintId_eq_some hmint
      simp only [hlook, hmint, Option.some.injEq] at h
      cases h
      exact .inr ⟨rfl,rfl,rfl,rfl⟩

lemma getSampler_eq_some {c c' : ResourceCache} {desc : SamplerDesc} {id : ℕ}
    {cmds : List ResourceCmd} (h : c.getSampler desc = some (id,c',cmds)) :
    (c.samplers.lookup desc = some id ∧ c = c' ∧ cmds = []) ∨
      c.samplers.lookup desc = none ∧ id = c.nextId ∧
        c' = { c with nextId := c.nextId+1, samplers := (desc,c.nextId) :: c.samplers } ∧
        cmds = [.createSampler c.nextId desc] := by
  unfold getSampler at h
  cases hlook : c.samplers.lookup desc with
  | some e =>
    simp only [hlook, Option.some.injEq] at h
    cases h
    exact .inl ⟨rfl,rfl,rfl⟩
  | none =>
    cases hmint : c.mintId with
    | none => simp [hlook, hmint] at h
    | some m =>
      obtain ⟨fresh,d⟩ := m
      obtain ⟨rfl,rfl⟩ := mintId_eq_some hmint
      simp only [hlook, hmint, Option.some.injEq] at h
      cases h
      exact .inr ⟨rfl,rfl,rfl,rfl⟩

lemma getWhiteDummy_eq_some {c c' : ResourceCache} {id : ℕ} {cmds : List ResourceCmd}
    (h : c.getWhiteDummy = some (id,c',cmds)) :
    (c.whiteDummy = some id ∧ c = c' ∧ cmds = []) ∨
      c.whiteDummy = none ∧ id = c.nextId ∧
        c' = { c with nextId := c.nextId+1, whiteDummy := some c.nextId } ∧
        cmds = [.createImage c.nextId 1 1 .r8g8b8a8Unorm,
          .uploadImage c.nextId [0xff,0xff,0xff,0xff]] := by
  unfold getWhiteDummy at h
  cases hdummy : c.whiteDummy with
  | some e =>
    simp only [hdummy, Option.some.injEq] at h
    cases h
    exact .inl ⟨rfl,rfl,rfl⟩
  | none =>
    cases hmint : c.mintId with
    | none => simp [hdummy, hmint] at h
    | some m =>
      obtain ⟨fresh,d⟩ := m
      obtain ⟨rfl,rfl⟩ := mintId_eq_some hmint
      simp only [hdummy, hmint, Option.some.injEq] at h
      cases h
      exact .inr ⟨rfl,rfl,rfl,rfl⟩

lemma getRenderTarget_emits {c c' : ResourceCache} {key : ResourceKey} {surface : SurfaceLayout}
    {format : ColorFormat} {id : ℕ} {cmds : List ResourceCmd}
    (h : c.getRenderTarget key surface format = some (id,c',cmds)) : c.Emits cmds c' := by
  obtain ⟨_,-,rfl,rfl,rfl⟩ | ⟨hlook,rfl,rfl,rfl⟩ := getRenderTarget_eq_some h
  · exact c.touch_emits key
  · exact insert_emits _ _ hlook rfl rfl

lemma getSampler_emits {c c' : ResourceCache} {desc : SamplerDesc} {id : ℕ}
    {cmds : List ResourceCmd} (h : c.getSampler desc = some (id,c',cmds)) : c.Emits cmds c' := by
  obtain ⟨-,rfl,rfl⟩ | ⟨-,rfl,rfl,rfl⟩ := getSampler_eq_some h
  · exact emits_nil rfl rfl rfl
  · refine emits_create (fun h => h.keys) ?_ rfl rfl
    simp [liveIds]

lemma getWhiteDummy_emits {c c' : ResourceCache} {id : ℕ} {cmds : List ResourceCmd}
    (h : c.getWhiteDummy = some (id,c',cmds)) : c.Emits cmds c' := by
  obtain ⟨-,rfl,rfl⟩ | ⟨hdummy,rfl,rfl,rfl⟩ := getWhiteDummy_eq_some h
  · exact emits_nil rfl rfl rfl
  · have hcreate : c.Emits [.createImage c.nextId 1 1 .r8g8b8a8Unorm]
        { c with nextId := c.nextId+1, whiteDummy := some c.nextId } := by
      refine emits_create (fun h => h.keys) ?_ rfl rfl
      simp only [liveIds, hdummy, Option.toList, List.append_nil]
      rw [← List.append_assoc]
      exact List.perm_append_singleton _ _
    refine hcreate.trans (emits_use ?_ rfl)
    simp [liveIds]

/-- What samplers and the white dummy do to the cache: no entry changes, and the commands are
on a new id. -/
def Beside (c : ResourceCache) (cmds : List ResourceCmd) (d : ResourceCache) : Prop :=
  c.Emits cmds d ∧ d.entries = c.entries ∧ ∀ cmd ∈ cmds, cmd.event.id = c.nextId

lemma getSampler_beside {c c' : ResourceCache} {desc : SamplerDesc} {id : ℕ}
    {cmds : List ResourceCmd} (h : c.getSampler desc = some (id,c',cmds)) : c.Beside cmds c' := by
  refine ⟨getSampler_emits h,?_⟩
  obtain ⟨-,rfl,rfl⟩ | ⟨-,rfl,rfl,rfl⟩ := getSampler_eq_some h
  · exact ⟨rfl,by simp⟩
  · exact ⟨rfl,by simp [ResourceCmd.event, Lifetime.Event.id]⟩

lemma getWhiteDummy_beside {c c' : ResourceCache} {id : ℕ} {cmds : List ResourceCmd}
    (h : c.getWhiteDummy = some (id,c',cmds)) : c.Beside cmds c' := by
  refine ⟨getWhiteDummy_emits h,?_⟩
  obtain ⟨-,rfl,rfl⟩ | ⟨-,rfl,rfl,rfl⟩ := getWhiteDummy_eq_some h
  · exact ⟨rfl,by simp⟩
  · exact ⟨rfl,by simp [ResourceCmd.event, Lifetime.Event.id]⟩

/-- The entries live in a hash map: between two operations their order is arbitrary. -/
lemma rehash_emits {c : ResourceCache} {entries : List (ResourceKey × Entry)}
    (h : entries.Perm c.entries) : c.Emits [] { c with entries := entries } := by
  intro hc
  have hids : liveIds { c with entries := entries } |>.Perm c.liveIds := (h.map _).append_right _
  have h' : WellFormed { c with entries := entries } := by
    refine ⟨(h.map _).nodup_iff.mpr hc.keys,hids.nodup_iff.mpr hc.ids,?_⟩
    intro id hid
    exact hc.minted id (hids.mem_iff.mp hid)
  refine ⟨h',?_⟩
  have heq : ledger { c with entries := entries } h' = c.ledger hc :=
    Ledger.ext rfl (List.toFinset_eq_of_perm _ _ hids)
  rw [heq]
  exact .nil _

end ResourceCache

lemma trim_frees (c : ResourceCache) (now : ℕ) :
    (∀ p ∈ (c.trim now).1.entries, p ∈ c.entries) ∧
      ∀ cmd ∈ (c.trim now).2, ∃ id, cmd = .freeResource id := by
  unfold ResourceCache.trim
  split_ifs with hflip
  · simp
  · dsimp only
    split_ifs with hbudget
    · simp
    · have hfrees := ResourceCache.evict_frees { c with trimmedFlip := now }
        (ResourceCache.candidates { c with trimmedFlip := now })
      refine ⟨fun p hp => hfrees.entries hp,fun cmd hcmd => ?_⟩
      obtain ⟨p,-,-,heq⟩ := hfrees.named cmd hcmd
      exact ⟨p.2.id,heq⟩

/-- A free of keys leaves none of them. -/
lemma freeKeys_clears (c : ResourceCache) (keys : List ResourceKey) :
    ∀ p ∈ (c.freeKeys keys).1.entries, p.1 ∉ keys := by
  induction keys generalizing c with
  | nil => simp
  | cons key rest ih =>
    unfold ResourceCache.freeKeys
    cases hlook : c.lookup key with
    | none =>
      refine fun p hp => List.not_mem_cons_of_ne_of_not_mem ?_ (ih c p hp)
      rintro rfl
      have hmem := (c.freeKeys_frees rest).entries hp
      exact ResourceCache.lookup_none hlook (List.mem_map_of_mem hmem)
    | some entry =>
      dsimp only
      intro p hp
      have hmem := (ResourceCache.freeKeys_frees _ rest).entries hp
      obtain ⟨-,hne⟩ := List.mem_filter.mp hmem
      exact List.not_mem_cons_of_ne_of_not_mem (of_decide_eq_true hne) (ih _ p hp)

/-- The operations of the cache, each with what it reads from outside: the flip counter
and the guest memory of the moment. -/
inductive CacheOp where
  | get (now : ℕ) (read : ℕ → ℕ → Option Bytes) (key : ResourceKey)
  | getTexture (now : ℕ) (read : ℕ → ℕ → Option Bytes) (key : ResourceKey)
      (surface : SurfaceLayout) (format : TextureFormat)
  | getRenderTarget (key : ResourceKey) (surface : SurfaceLayout) (format : ColorFormat)
  | getSampler (desc : SamplerDesc)
  | getWhiteDummy
  | trim (now : ℕ)
  | applyDirty (dirtied : List (ℕ × ℕ))
  | invalidateRange (addr size : ℕ)
  | freeRange (addr size : ℕ)

section Run

variable (pol : CachePolicy) (detile : Bytes → SurfaceLayout → Option Bytes)

/-- One operation; `none` when the id allocator panics. -/
def CacheOp.apply (c : ResourceCache) : CacheOp → Option (ResourceCache × List ResourceCmd)
  | .get now read key => (c.get pol read now key).map fun r => (r.2.1,r.2.2.1)
  | .getTexture now read key surface format =>
      (c.getTexture detile read now key surface format).map fun r => (r.2.1,r.2.2.1)
  | .getRenderTarget key surface format => (c.getRenderTarget key surface format).map (·.2)
  | .getSampler desc => (c.getSampler desc).map (·.2)
  | .getWhiteDummy => c.getWhiteDummy.map (·.2)
  | .trim now => some (c.trim now)
  | .applyDirty dirtied => some (c.applyDirty dirtied,[])
  | .invalidateRange addr size => some (c.invalidateRange addr size,[])
  | .freeRange addr size =>
      let r := c.freeRange addr size
      some (r.1,r.2.1)

/-- A run of the cache, with all the commands it emitted. Between operations the hash map
may be in any order. -/
inductive CacheRun : ResourceCache → List ResourceCmd → Prop
  | new : CacheRun .new []
  | step {c d : ResourceCache} {cmds out : List ResourceCmd} (op : CacheOp) :
      CacheRun c cmds → op.apply pol detile c = some (d,out) → CacheRun d (cmds ++ out)
  | rehash {c : ResourceCache} {cmds : List ResourceCmd}
      {entries : List (ResourceKey × Entry)} :
      CacheRun c cmds → entries.Perm c.entries → CacheRun { c with entries := entries } cmds

variable {pol detile}

lemma CacheOp.apply_emits {c d : ResourceCache} {out : List ResourceCmd} {op : CacheOp}
    (h : op.apply pol detile c = some (d,out)) : c.Emits out d := by
  cases op with
  | get now read key =>
    obtain ⟨r,hr,heq⟩ := Option.map_eq_some_iff.mp h
    cases heq
    exact ResourceCache.acquire_emits (ResourceCache.bufferRecipe_lawful pol read key) hr
  | getTexture now read key surface format =>
    obtain ⟨r,hr,heq⟩ := Option.map_eq_some_iff.mp h
    cases heq
    exact ResourceCache.acquire_emits
      (ResourceCache.textureRecipe_lawful detile read key surface format) hr
  | getRenderTarget key surface format =>
    obtain ⟨⟨id,r⟩,hr,rfl⟩ := Option.map_eq_some_iff.mp h
    exact ResourceCache.getRenderTarget_emits hr
  | getSampler desc =>
    obtain ⟨⟨id,r⟩,hr,rfl⟩ := Option.map_eq_some_iff.mp h
    exact ResourceCache.getSampler_emits hr
  | getWhiteDummy =>
    obtain ⟨⟨id,r⟩,hr,rfl⟩ := Option.map_eq_some_iff.mp h
    exact ResourceCache.getWhiteDummy_emits hr
  | trim now =>
    have heq := Option.some.inj h
    have htrim := c.trim_emits now
    rwa [heq] at htrim
  | applyDirty dirtied =>
    cases h
    exact c.markDirty_emits _
  | invalidateRange addr size =>
    cases h
    exact c.markDirty_emits _
  | freeRange addr size =>
    cases h
    exact (c.freeKeys_frees _).emits

lemma new_wellFormed : ResourceCache.new.WellFormed :=
  ⟨List.nodup_nil,List.nodup_nil,by simp [ResourceCache.liveIds, ResourceCache.new]⟩

lemma CacheRun.emits {c : ResourceCache} {cmds : List ResourceCmd} (h : CacheRun pol detile c cmds) :
    ResourceCache.new.Emits cmds c := by
  induction h with
  | new => exact ResourceCache.emits_nil rfl rfl rfl
  | step op _ hop ih => exact ih.trans (CacheOp.apply_emits hop)
  | rehash _ hperm ih => simpa using ih.trans (ResourceCache.rehash_emits hperm)

end Run

def createdIds (cmds : List ResourceCmd) : List ℕ := created (cmds.map (·.event))

def freedIds (cmds : List ResourceCmd) : List ℕ := freed (cmds.map (·.event))

/-- The commands name every id in order: created once and increasingly, uploaded to after
that, freed at most once and then never named again; what is left is live in the cache. -/
structure Disciplined (c : ResourceCache) (cmds : List ResourceCmd) : Prop where
  increasing : (createdIds cmds).Pairwise (· < ·)
  createdOnce : ∀ cmd ∈ cmds, (createdIds cmds).count cmd.event.id = 1
  createdBeforeUpload : ∀ (i : ℕ) (cmd : ResourceCmd) (id : ℕ), cmds[i]? = some cmd →
    cmd.event = .use id →
    ∃ j < i, ∃ create : ResourceCmd, cmds[j]? = some create ∧ create.event = .create id
  freedOnce : (freedIds cmds).Nodup
  deadAfterFree : ∀ (i j id : ℕ) (cmd : ResourceCmd), i < j →
    cmds[i]? = some (.freeResource id) → cmds[j]? = some cmd → cmd.event.id ≠ id
  liveNodup : c.liveIds.Nodup
  live : ∀ id, id ∈ c.liveIds ↔ id ∈ createdIds cmds ∧ id ∉ freedIds cmds

/-- Every run of the cache is disciplined. -/
theorem cacheRun_disciplined (pol : CachePolicy) (detile : Bytes → SurfaceLayout → Option Bytes)
    {c : ResourceCache} {cmds : List ResourceCmd} (h : CacheRun pol detile c cmds) :
    Disciplined c cmds := by
  obtain ⟨hc,hf⟩ := h.emits new_wellFormed
  have hempty : (ResourceCache.new.ledger new_wellFormed).live = ∅ := rfl
  have hinc := hf.created_pairwise
  refine ⟨hinc,?_,?_,hf.freed_nodup,?_,hc.ids,?_⟩
  · intro cmd hcmd
    have hmem := hf.mem_created cmd.event (List.mem_map_of_mem hcmd)
    rw [hempty] at hmem
    refine List.count_eq_one_of_mem (hinc.imp (fun hlt => hlt.ne)) ?_
    simpa [createdIds] using hmem
  · intro i cmd id hi hcmd
    have hi' : (cmds.map (·.event))[i]? = some (.use id) := by simp [hi, hcmd]
    rcases hf.created_before_use hi' with hlive | ⟨j,hj,hcreate⟩
    · simp [hempty] at hlive
    · simp only [List.getElem?_map, Option.map_eq_some_iff] at hcreate
      obtain ⟨create,hget,hev⟩ := hcreate
      exact ⟨j,hj,create,hget,hev⟩
  · intro i j id cmd hij hi hj
    refine hf.dead_after_free (i := i) ?_ hij (j := j) ?_
    · simp [hi, ResourceCmd.event]
    · simp [hj]
  · intro id
    have hlive := hf.live_eq
    rw [hempty, Finset.empty_union] at hlive
    have hmem := Finset.ext_iff.mp hlive id
    simpa [ResourceCache.ledger, createdIds, freedIds] using hmem

/-- No range is coherent with the GPU, so every resource is copied. -/
def copyPolicy : CachePolicy := ⟨fun _ _ => .copySide,fun _ _ _ => false⟩

/-- A vertex buffer used twice, freed, and used again under a new id. -/
theorem cacheRun_disciplined_reused :
    ∃ c cmds, CacheRun copyPolicy (fun bytes _ => some bytes) c cmds ∧
      cmds = [.createBuffer 1 4,.uploadBuffer 1 0 [7,7,7,7],.uploadBuffer 1 0 [8,8,8,8],
        .freeResource 1,.createBuffer 2 4,.uploadBuffer 2 0 [8,8,8,8]] ∧ Disciplined c cmds := by
  let filled (x : UInt8) (_ n : ℕ) : Option Bytes := some (List.replicate n x)
  let key : ResourceKey := ⟨0x1000,4,.vertexBuf⟩
  have h₁ : CacheRun copyPolicy (fun bytes _ => some bytes) _ _ :=
    .step (.get 0 (filled 7) key) .new rfl
  have h₂ := h₁.step (.get 0 (filled 8) key) rfl
  have h₃ := h₂.step (.freeRange 0x1002 1) rfl
  have h₄ := h₃.step (.get 1 (filled 8) key) rfl
  exact ⟨_,_,h₄,rfl,cacheRun_disciplined _ _ h₄⟩

end Unemups4.Gnm

import Unemups4.CacheDiscipline

/-! The backend's own maps. A command that creates files the object under its id in the map
of its kind; a free and a bind each look the id up in their own selection of the maps. -/
namespace Unemups4.Gnm
open Lifetime

/-- The maps of the backend; `import_buffer` keys `imported` by the pair of minus one and
the id. -/
inductive HostMap where
  | resources
  | imported
  | images
  | renderTargets
  deriving DecidableEq, Repr

inductive HostObject where
  | pooled (len : ℕ)
  | importedBuffer (addr size : ℕ)
  | image (width height : ℕ) (format : TextureFormat)
  | target (width height : ℕ) (format : ColorFormat)
  deriving DecidableEq, Repr

/-- The map a creating command files its object in, under which id. -/
def ResourceCmd.files : ResourceCmd → Option (HostMap × ℕ × HostObject)
  | .createBuffer id size => some (.resources,id,.pooled (max size 1))
  | .importBuffer id addr size => some (.imported,id,.importedBuffer addr size)
  | .createImage id width height format => some (.images,id,.image width height format)
  | .createRenderTarget id width height format =>
      some (.renderTargets,id,.target width height format)
  | .uploadBuffer _ _ _ | .uploadImage _ _ | .freeResource _ | .createSampler _ _ => none

namespace HostMap

/-- `create_image` and `create_render_target` skip an id they already hold. -/
def keepsFirst : HostMap → Bool
  | images | renderTargets => true
  | resources | imported => false

/-- The maps `free_resource` removes the id from. -/
def isFreed : HostMap → Bool
  | resources | imported | renderTargets => true
  | images => false

end HostMap

/-- The maps, with the pooled buffers that wait for the next list to be recycled. -/
structure Host where
  held : HostMap → ℕ → Option HostObject
  samplers : ℕ → Option SamplerDesc
  pendingRecycle : List ℕ

namespace Host

def empty : Host := ⟨fun _ _ => none,fun _ => none,[]⟩

def insert (h : Host) (m : HostMap) (id : ℕ) (o : HostObject) : Host :=
  if m.keepsFirst && (h.held m id).isSome then h
  else { h with held := Function.update h.held m (Function.update (h.held m) id (some o)) }

def createSampler (h : Host) (id : ℕ) (desc : SamplerDesc) : Host :=
  if (h.samplers id).isSome then h
  else { h with samplers := Function.update h.samplers id (some desc) }

def freeResource (h : Host) (id : ℕ) : Host where
  held := fun m => if m.isFreed then Function.update (h.held m) id none else h.held m
  samplers := h.samplers
  pendingRecycle :=
    if (h.held .resources id).isSome then h.pendingRecycle ++ [id] else h.pendingRecycle

/-- The resource arms of `replay_command_list`, as far as the maps go. -/
def apply (h : Host) (cmd : ResourceCmd) : Host :=
  match cmd.files with
  | some (m,id,o) => h.insert m id o
  | none =>
      match cmd with
      | .freeResource id => h.freeResource id
      | .createSampler id desc => h.createSampler id desc
      | _ => h

def replay (h : Host) (cmds : List ResourceCmd) : Host := cmds.foldl apply h

/-- What the vertex, storage, constant and index binds of an id resolve to. -/
def bindBuffer (h : Host) (id : ℕ) : Option HostObject := h.held .resources id

/-- A sampled image or a render target. -/
def bindTexture (h : Host) (id : ℕ) : Option HostObject :=
  h.held .images id <|> h.held .renderTargets id

def setRenderTarget (h : Host) (id : ℕ) : Option HostObject := h.held .renderTargets id

def Holds (h : Host) (id : ℕ) : Prop := ∃ m, (h.held m id).isSome

@[simp] lemma empty_held (m : HostMap) (id : ℕ) : empty.held m id = none := rfl

/-- Of an id nothing is held under yet, an insertion is what its map holds. -/
lemma insert_held {h : Host} {m : HostMap} {id : ℕ} (o : HostObject) (hfresh : h.held m id = none)
    (k : HostMap) (x : ℕ) :
    (h.insert m id o).held k x = if k = m ∧ x = id then some o else h.held k x := by
  have hfirst : (m.keepsFirst && (h.held m id).isSome) = false := by simp [hfresh]
  simp only [insert, hfirst, Bool.false_eq_true, if_false]
  by_cases hk : k = m
  · subst hk
    by_cases hx : x = id <;> simp [hx]
  · simp [hk]

lemma freeResource_held (h : Host) (id : ℕ) (k : HostMap) (x : ℕ) :
    (h.freeResource id).held k x = if k.isFreed ∧ x = id then none else h.held k x := by
  simp only [freeResource]
  by_cases hk : k.isFreed <;> by_cases hx : x = id <;> simp [hk, hx]

lemma createSampler_held (h : Host) (id : ℕ) (desc : SamplerDesc) :
    (h.createSampler id desc).held = h.held := by
  unfold createSampler
  split_ifs <;> rfl

end Host

lemma ResourceCmd.files_event {cmd : ResourceCmd} {m : HostMap} {id : ℕ} {o : HostObject}
    (h : cmd.files = some (m,id,o)) : cmd.event = .create id := by
  cases cmd <;> simp_all [files, event]

namespace Host

/-- Nothing is held under an id not handed out yet. -/
def Fresh (h : Host) (next : ℕ) : Prop := ∀ m id, next ≤ id → h.held m id = none

/-- What one command of a lawful stream does to a map. -/
lemma apply_held {h : Host} {l : Ledger} {cmd : ResourceCmd} (hfresh : h.Fresh l.next)
    (hcmd : ∀ id, cmd.event = .create id → l.next ≤ id) (k : HostMap) (x : ℕ) (o : HostObject) :
    (h.apply cmd).held k x = some o ↔
      (h.held k x = some o ∧ ¬(k.isFreed ∧ cmd = .freeResource x)) ∨ cmd.files = some (k,x,o) := by
  unfold apply
  cases hfiles : cmd.files with
  | some f =>
    obtain ⟨m,id,obj⟩ := f
    have hid := hcmd id (ResourceCmd.files_event hfiles)
    have hfree : cmd ≠ .freeResource x := by
      rintro rfl
      cases hfiles
    rw [insert_held obj (hfresh m id hid)]
    by_cases hkx : k = m ∧ x = id
    · obtain ⟨rfl,rfl⟩ := hkx
      simp [hfresh k x hid]
    · have hne : ¬(m = k ∧ id = x) := fun h => hkx ⟨h.1.symm,h.2.symm⟩
      simp only [hkx, if_false, hfree, and_false, not_false_eq_true, and_true, Option.some.injEq,
        Prod.mk.injEq]
      tauto
  | none =>
    cases cmd with
    | freeResource id =>
      simp only [freeResource_held, reduceCtorEq, or_false, ResourceCmd.freeResource.injEq]
      by_cases hkx : k.isFreed ∧ x = id
      · simp [hkx]
      · have hne : ¬(k.isFreed = true ∧ id = x) := fun h => hkx ⟨h.1,h.2.symm⟩
        simp [hkx, hne]
    | createSampler id desc => simp [createSampler_held]
    | uploadBuffer | uploadImage => simp
    | createBuffer | importBuffer | createImage | createRenderTarget => cases hfiles

/-- A lawful stream leaves in a map what its commands filed there and did not free. -/
theorem replay_held {h : Host} {l l' : Ledger} {cmds : List ResourceCmd}
    (hf : Follows l (cmds.map (·.event)) l') (hfresh : h.Fresh l.next) (k : HostMap) (x : ℕ)
    (o : HostObject) :
    (h.replay cmds).held k x = some o ↔
      (h.held k x = some o ∨ ∃ cmd ∈ cmds, cmd.files = some (k,x,o)) ∧
        ¬(k.isFreed ∧ .freeResource x ∈ cmds) := by
  induction cmds generalizing h l with
  | nil => simp [replay]
  | cons cmd cmds ih =>
    obtain ⟨l₁,hrest,hnew,hnext⟩ := hf.uncons
    have hcreate : ∀ id, cmd.event = .create id → l.next ≤ id := fun id he => (hnew id).1 he
    have hfresh₁ : (h.apply cmd).Fresh l₁.next := by
      intro m id hid
      refine Option.eq_none_iff_forall_ne_some.mpr fun obj hobj => ?_
      rcases (apply_held hfresh hcreate m id obj).mp hobj with ⟨hold,-⟩ | hfiles
      · rw [hfresh m id (hnext.trans hid)] at hold
        cases hold
      · have hlt := (hnew id).2.1 (ResourceCmd.files_event hfiles)
        omega
    have hstep := ih hrest hfresh₁
    rw [show h.replay (cmd :: cmds) = (h.apply cmd).replay cmds from rfl, hstep,
      apply_held hfresh hcreate]
    simp only [List.mem_cons, exists_eq_or_imp]
    by_cases hfree : k.isFreed ∧ cmd = .freeResource x
    · obtain ⟨hk,rfl⟩ := hfree
      -- nothing files an object under an id that was live when it was freed
      have hlate : ¬∃ cmd ∈ cmds, cmd.files = some (k,x,o) := by
        rintro ⟨cmd,hcmd,hfiles⟩
        have hmem : x ∈ created (cmds.map (·.event)) :=
          List.mem_filterMap.mpr ⟨_,List.mem_map_of_mem hcmd,by rw [ResourceCmd.files_event hfiles]⟩
        have hge := hrest.created_ge x hmem
        have hlt := (hnew x).2.2 rfl
        omega
      constructor
      · rintro ⟨(⟨-,hne⟩ | hfiles) | hex,-⟩
        · exact absurd ⟨hk,rfl⟩ hne
        · cases hfiles
        · exact absurd hex hlate
      · rintro ⟨-,hne⟩
        exact absurd ⟨hk,.inl rfl⟩ hne
    · have hsame : ¬(k.isFreed = true ∧ (.freeResource x = cmd ∨ .freeResource x ∈ cmds)) ↔
          ¬(k.isFreed = true ∧ .freeResource x ∈ cmds) := by
        constructor
        · exact fun h hmem => h ⟨hmem.1,.inr hmem.2⟩
        · rintro h ⟨hk,rfl | hmem⟩
          · exact hfree ⟨hk,rfl⟩
          · exact h ⟨hk,hmem⟩
      rw [hsame]
      simp only [hfree, not_false_eq_true, and_true, or_assoc]

end Host

end Unemups4.Gnm

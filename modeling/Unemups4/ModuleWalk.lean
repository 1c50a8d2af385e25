import Unemups4.ModuleLoad

/-! The walk over the needed modules: it ends, it yields each file once and none that is known, and
over a graph without cycles it yields a module after the modules that it needs. -/
namespace Unemups4.Loader
open Relation (TransGen ReflTransGen)

section Loop

variable {σ ι : Type*} {f : σ → ι → Option σ} {xs : List ι} {s t : σ}

/-- A loop of steps that each keep an invariant, move along an order, and establish something of
their item that the order keeps. -/
lemma foldlM_some (inv : σ → Prop) (R : σ → σ → Prop) (post : ι → σ → Prop)
    (hrefl : ∀ s, R s s) (htrans : ∀ s t u, R s t → R t u → R s u)
    (hpost : ∀ x s t, R s t → post x s → post x t)
    (hstep : ∀ s x t, x ∈ xs → inv s → f s x = some t → inv t ∧ R s t ∧ post x t) (hs : inv s)
    (h : xs.foldlM f s = some t) : inv t ∧ R s t ∧ ∀ x ∈ xs, post x t := by
  induction xs generalizing s with
  | nil =>
    obtain rfl : s = t := by simpa using h
    exact ⟨hs,hrefl s,by simp⟩
  | cons x xs ih =>
    rw [List.foldlM_cons] at h
    obtain ⟨u,hu,h⟩ := Option.bind_eq_some_iff.mp h
    obtain ⟨hinv,hR,hx⟩ := hstep s x u (by simp) hs hu
    obtain ⟨hinv',hR',hxs⟩ := ih (fun s y t hy => hstep s y t (List.mem_cons_of_mem _ hy)) hinv h
    refine ⟨hinv',htrans s u t hR hR',fun y hy => ?_⟩
    rcases List.mem_cons.mp hy with rfl | hy
    · exact hpost y u t hR' hx
    · exact hxs y hy

lemma foldlM_isSome (hstep : ∀ s, ∀ x ∈ xs, (f s x).isSome) : (xs.foldlM f s).isSome := by
  induction xs generalizing s with
  | nil => rfl
  | cons x xs ih =>
    rw [List.foldlM_cons]
    obtain ⟨u,hu⟩ := Option.isSome_iff_exists.mp (hstep s x (by simp))
    rw [hu]
    exact ih fun s y hy => hstep s y (List.mem_cons_of_mem _ hy)

end Loop

variable {host : Host} {gameDir : String} {known : List String}

lemma Host.mem_names {path name : String} {image : ExecutableImage}
    (h : host.read path = .image image) (hname : name ∈ image.neededModules) : name ∈ host.names := by
  unfold Host.read at h
  cases hfile : (host.file path).bind fun i => host.files[i]? with
  | none => simp [hfile] at h
  | some content =>
    obtain rfl : content = .image image := by simpa [hfile] using h
    obtain ⟨i,-,hi⟩ := Option.bind_eq_some_iff.mp hfile
    exact List.mem_flatMap.mpr ⟨_,List.mem_of_getElem? hi,hname⟩

section Ends

/-- The names that a walk may still go down into. -/
def Host.fresh (host : Host) (loading : List String) : Finset String :=
  host.names.toFinset \ loading.toFinset

lemma Host.fresh_lt {loading : List String} {lib : String} (path : String) (hlib : lib ∈ host.names)
    (hnot : lib ∉ loading) : (host.fresh (path :: lib :: loading)).card < (host.fresh loading).card := by
  apply Finset.card_lt_card
  rw [Finset.ssubset_iff_of_subset]
  · exact ⟨lib,by simp [fresh, hlib, hnot],by simp [fresh]⟩
  · intro name
    simp only [fresh, Finset.mem_sdiff, List.mem_toFinset, List.mem_cons, not_or]
    exact fun h => ⟨h.1,h.2.2.2⟩

/-- Each level down has one name less to go down into. -/
lemma collectModuleGraph_isSome {fuel : ℕ} {loading : List String} {w : Walk} {lib : String}
    (hlib : lib ∈ host.names) (hfuel : (host.fresh loading).card < fuel) :
    (collectModuleGraph host gameDir known fuel loading w lib).isSome := by
  induction fuel generalizing loading w lib with
  | zero => omega
  | succ fuel ih =>
    rw [collectModuleGraph]
    split_ifs with hseen
    · rfl
    · split
      · rfl
      · rename_i path hpath
        split_ifs
        · rfl
        · split
          · rename_i image hread
            rw [Option.isSome_map]
            have hlt := Host.fresh_lt path hlib fun h => hseen (.inr h)
            exact foldlM_isSome fun w dep hdep => ih (Host.mem_names hread hdep) (by omega)
          · rfl

/-- The walk from the modules that a file of the host needs ends. -/
theorem exists_walk (gameDir : String) (known seeded : List String) {path : String}
    {image : ExecutableImage} (h : host.read path = .image image) : ∃ w, image.neededModules.foldlM
      (collectModuleGraph host gameDir known (host.names.length+1) []) ⟨seeded,[]⟩ = some w ∧
      collectNeeded host gameDir known seeded image = w.out := by
  have hcard : (host.fresh []).card ≤ host.names.length :=
    (Finset.card_le_card Finset.sdiff_subset).trans (List.toFinset_card_le _)
  have hsome : (image.neededModules.foldlM
      (collectModuleGraph host gameDir known (host.names.length+1) []) ⟨seeded,[]⟩).isSome :=
    foldlM_isSome fun w dep hdep => collectModuleGraph_isSome (Host.mem_names h hdep) (by omega)
  obtain ⟨w,hw⟩ := Option.isSome_iff_exists.mp hsome
  exact ⟨w,hw,by rw [collectNeeded, hw]; rfl⟩

end Ends

section Once

/-- A collected module was found for its name and read under its path. -/
structure Collected.Found (host : Host) (gameDir : String) (c : Collected) : Prop where
  file : findModuleFile host gameDir c.lib = some c.path
  read : host.read c.path = .image c.image
  dir : c.dir = gameDir

/-- What a walk adds: each module was found and read under its path, and its path is new. -/
structure Grows (host : Host) (gameDir : String) (known loading : List String) (w w' : Walk) : Prop where
  loaded : w.loaded ⊆ w'.loaded
  out : ∃ new, w'.out = w.out ++ new ∧ (new.map Collected.path).Nodup ∧ ∀ c ∈ new,
    c.Found host gameDir ∧ c.path ∉ loading ∧ c.path ∉ w.loaded ∧ c.path ∉ known ∧ c.path ∈ w'.loaded

variable {loading : List String} {w w' w'' : Walk}

lemma Grows.refl (w : Walk) : Grows host gameDir known loading w w :=
  ⟨fun _ => id,[],by simp⟩

lemma Grows.trans (h : Grows host gameDir known loading w w')
    (h' : Grows host gameDir known loading w' w'') : Grows host gameDir known loading w w'' := by
  obtain ⟨hloaded,new,hout,hnodup,hnew⟩ := h
  obtain ⟨hloaded',new',hout',hnodup',hnew'⟩ := h'
  refine ⟨fun _ hs => hloaded' (hloaded hs),new ++ new',?_,?_,?_⟩
  · rw [hout', hout, List.append_assoc]
  · rw [List.map_append]
    refine hnodup.append hnodup' fun path hpath hpath' => ?_
    obtain ⟨c,hc,rfl⟩ := List.mem_map.mp hpath
    obtain ⟨c',hc',heq⟩ := List.mem_map.mp hpath'
    exact (hnew' c' hc').2.2.1 (heq ▸ (hnew c hc).2.2.2.2)
  · intro c hc
    rcases List.mem_append.mp hc with hc | hc
    · obtain ⟨hfound,hl,hw,hk,hin⟩ := hnew c hc
      exact ⟨hfound,hl,hw,hk,hloaded' hin⟩
    · obtain ⟨hfound,hl,hw,hk,hin⟩ := hnew' c hc
      exact ⟨hfound,hl,fun h => hw (hloaded h),hk,hin⟩

/-- A call that only marks names and paths. -/
lemma Grows.mark (marks : List String) :
    Grows host gameDir known loading w { w with loaded := marks ++ w.loaded } :=
  ⟨List.subset_append_right _ _,[],by simp⟩

lemma collectModuleGraph_grows {fuel : ℕ} {lib : String}
    (h : collectModuleGraph host gameDir known fuel loading w lib = some w') :
    Grows host gameDir known loading w w' := by
  induction fuel generalizing loading w w' lib with
  | zero => cases h
  | succ fuel ih =>
    rw [collectModuleGraph] at h
    split_ifs at h with hseen
    · obtain rfl := Option.some.inj h
      exact .refl w
    · split at h
      · obtain rfl := Option.some.inj h
        exact .mark [lib]
      · rename_i path hpath
        split_ifs at h with hfile
        · obtain rfl := Option.some.inj h
          exact .mark [lib]
        · split at h
          · rename_i image hread
            obtain ⟨w₁,hdeps,rfl⟩ := Option.map_eq_some_iff.mp h
            obtain ⟨-,hgrows,-⟩ := foldlM_some (fun _ => True)
              (Grows host gameDir known (path :: lib :: loading)) (fun _ _ => True) Grows.refl
              (fun _ _ _ => .trans) (fun _ _ _ _ => id)
              (fun s x t _ _ hst => ⟨trivial,ih hst,trivial⟩) trivial hdeps
            obtain ⟨hloaded,new,hout,hnodup,hnew⟩ := hgrows
            push Not at hfile
            refine ⟨fun s hs => by simp [hloaded hs],new ++ [⟨lib,path,gameDir,image⟩],?_,?_,?_⟩
            · simp [hout]
            · rw [List.map_append]
              refine hnodup.append (by simp) fun p hp hp' => ?_
              obtain ⟨c,hc,rfl⟩ := List.mem_map.mp hp
              have hnot := (hnew c hc).2.1
              simp_all
            · intro c hc
              rcases List.mem_append.mp hc with hc | hc
              · obtain ⟨hfound,hl,hw,hk,hin⟩ := hnew c hc
                simp only [List.mem_cons, not_or] at hl
                exact ⟨hfound,hl.2.2,hw,hk,by simp [hin]⟩
              · obtain rfl := List.mem_singleton.mp hc
                exact ⟨⟨hpath,hread,rfl⟩,hfile.1,hfile.2.1,hfile.2.2,by simp⟩
          · obtain rfl := Option.some.inj h
            exact .mark [lib,path]

lemma collect_grows {fuel : ℕ} {deps : List String}
    (h : deps.foldlM (collectModuleGraph host gameDir known fuel loading) w = some w') :
    Grows host gameDir known loading w w' :=
  (foldlM_some (fun _ => True) _ (fun _ _ => True) Grows.refl (fun _ _ _ => .trans)
    (fun _ _ _ _ => id) (fun _ _ _ _ _ hst => ⟨trivial,collectModuleGraph_grows hst,trivial⟩)
    trivial h).2.1

/-- The modules that are collected were each found and read, under paths that are new. -/
theorem collectNeeded_once (gameDir : String) (known seeded : List String) {path : String}
    {image : ExecutableImage} (h : host.read path = .image image) :
    ((collectNeeded host gameDir known seeded image).map Collected.path).Nodup ∧
    ∀ c ∈ collectNeeded host gameDir known seeded image,
      c.Found host gameDir ∧ c.path ∉ known := by
  obtain ⟨w,hw,hout⟩ := exists_walk gameDir known seeded h
  obtain ⟨-,new,hnew,hnodup,hall⟩ := collect_grows hw
  rw [hout, hnew, List.nil_append]
  exact ⟨hnodup,fun c hc => ⟨(hall c hc).1,(hall c hc).2.2.2.1⟩⟩

end Once

section Order

/-- One file's module needs the other's. -/
def Edge (host : Host) (gameDir : String) (path path' : String) : Prop :=
  ∃ image, host.read path = .image image ∧ ∃ dep ∈ image.neededModules,
    findModuleFile host gameDir dep = some path'

/-- Needed names are not themselves the paths of files that names stand for. -/
def NamesApart (host : Host) (gameDir : String) : Prop :=
  ∀ name ∈ host.names, ∀ lib, findModuleFile host gameDir lib ≠ some name

/-- No file's module needs itself, directly or through others. -/
def Acyclic (host : Host) (gameDir : String) : Prop := ∀ path, ¬TransGen (Edge host gameDir) path path

/-- What a walk is done with: it was seen in it or was known before. -/
def Settled (known : List String) (w : Walk) (path : String) : Prop := path ∈ w.loaded ∨ path ∈ known

/-- A module needs a path under a name that was not counted as seen from the start. -/
def NeedsPath (host : Host) (gameDir : String) (seeded : List String) (image : ExecutableImage)
    (path : String) : Prop :=
  ∃ dep ∈ image.neededModules, dep ∉ seeded ∧ findModuleFile host gameDir dep = some path

/-- What is needed was settled first. -/
structure Ordered (host : Host) (gameDir : String) (known seeded : List String) (w : Walk) : Prop where
  names : ∀ name ∈ host.names, name ∈ w.loaded → name ∉ seeded →
    ∀ path, findModuleFile host gameDir name = some path → Settled known w path
  settled : ∀ c ∈ w.out, ∀ path, NeedsPath host gameDir seeded c.image path → Settled known w path
  pairwise : w.out.Pairwise fun c c' => ¬NeedsPath host gameDir seeded c.image c'.path

/-- What is being loaded needs, through others, whatever the name stands for. -/
def Above (host : Host) (gameDir : String) (loading : List String) (lib : String) : Prop :=
  ∀ s ∈ loading, ∀ path, findModuleFile host gameDir lib = some path →
    (s ∈ host.names ∧ ∃ path', findModuleFile host gameDir s = some path' ∧
      TransGen (Edge host gameDir) path' path) ∨
    (∃ lib', findModuleFile host gameDir lib' = some s) ∧ TransGen (Edge host gameDir) s path

variable {loading seeded : List String} {w w' : Walk} {lib path : String} {image : ExecutableImage}

lemma Settled.mono (hloaded : w.loaded ⊆ w'.loaded) (h : Settled known w path) :
    Settled known w' path := h.imp_left fun hp => hloaded hp

lemma Above.down (h : Above host gameDir loading lib) (hlib : lib ∈ host.names)
    (hpath : findModuleFile host gameDir lib = some path) (hread : host.read path = .image image)
    {dep : String} (hdep : dep ∈ image.neededModules) :
    Above host gameDir (path :: lib :: loading) dep := by
  intro s hs path' hpath'
  have hedge : Edge host gameDir path path' := ⟨image,hread,dep,hdep,hpath'⟩
  rcases List.mem_cons.mp hs with rfl | hs
  · exact .inr ⟨⟨lib,hpath⟩,.single hedge⟩
  rcases List.mem_cons.mp hs with rfl | hs
  · exact .inl ⟨hlib,path,hpath,.single hedge⟩
  · rcases h s hs path hpath with ⟨hname,p,hp,htrans⟩ | ⟨hp,htrans⟩
    · exact .inl ⟨hname,p,hp,htrans.tail hedge⟩
    · exact .inr ⟨hp,htrans.tail hedge⟩

/-- Without cycles nothing that is being loaded is met again. -/
lemma Above.not_mem (h : Above host gameDir loading lib) (hacyclic : Acyclic host gameDir)
    (hapart : NamesApart host gameDir) (hlib : lib ∈ host.names)
    (hpath : findModuleFile host gameDir lib = some path) : lib ∉ loading ∧ path ∉ loading := by
  constructor
  · intro hmem
    rcases h lib hmem path hpath with ⟨-,p,hp,htrans⟩ | ⟨⟨lib',hlib'⟩,-⟩
    · obtain rfl := Option.some.inj (hp.symm.trans hpath)
      exact hacyclic p htrans
    · exact hapart lib hlib lib' hlib'
  · intro hmem
    rcases h path hmem path hpath with ⟨hname,-⟩ | ⟨-,htrans⟩
    · exact hapart path hname lib hpath
    · exact hacyclic path htrans

/-- Marking a name that stands for what is settled, or for nothing. -/
lemma Ordered.mark (h : Ordered host gameDir known seeded w) (hapart : NamesApart host gameDir)
    (lib : String) (paths : List String)
    (hpaths : ∀ p ∈ paths, ∃ lib', findModuleFile host gameDir lib' = some p)
    (hlib : ∀ p, findModuleFile host gameDir lib = some p →
      Settled known { w with loaded := lib :: paths ++ w.loaded } p) :
    Ordered host gameDir known seeded { w with loaded := lib :: paths ++ w.loaded } := by
  have hsub : w.loaded ⊆ lib :: paths ++ w.loaded := List.subset_append_right _ _
  refine ⟨?_,fun c hc p hp => (h.settled c hc p hp).mono hsub,h.pairwise⟩
  intro name hname hmem hnot p hp
  rcases List.mem_append.mp hmem with hmem | hmem
  · rcases List.mem_cons.mp hmem with rfl | hmem
    · exact hlib p hp
    · obtain ⟨lib',hlib'⟩ := hpaths name hmem
      exact absurd hlib' (hapart name hname lib')
  · exact (h.names name hname hmem hnot p hp).mono hsub

/-- What a walk added is needed, through others, by the file at a path. -/
def Under (host : Host) (gameDir path : String) (w w' : Walk) : Prop :=
  ∀ new, w'.out = w.out ++ new → ∀ c ∈ new, TransGen (Edge host gameDir) path c.path

lemma Under.refl (w : Walk) : Under host gameDir path w w := by
  intro new hnew c hc
  obtain rfl : new = [] := by simpa using hnew
  cases hc

lemma Under.trans {w'' : Walk} (h : Under host gameDir path w w')
    (h' : Under host gameDir path w' w'') (hgrows : Grows host gameDir known loading w w')
    (hgrows' : Grows host gameDir known loading w' w'') : Under host gameDir path w w'' := by
  obtain ⟨-,a,ha,-⟩ := hgrows
  obtain ⟨-,b,hb,-⟩ := hgrows'
  intro new hnew c hc
  have heq : new = a ++ b := by
    rw [hb, ha, List.append_assoc] at hnew
    exact (List.append_cancel_left hnew).symm
  rcases List.mem_append.mp (heq ▸ hc) with hc | hc
  · exact h a ha c hc
  · exact h' b hb c hc

/-- A module goes out after everything that it needs was settled. -/
lemma Ordered.push (h : Ordered host gameDir known seeded w')
    (hw : Ordered host gameDir known seeded w) (hacyclic : Acyclic host gameDir)
    (hapart : NamesApart host gameDir) (hpath : findModuleFile host gameDir lib = some path)
    (hnew : path ∉ w.loaded ∧ path ∉ known)
    (hgrows : Grows host gameDir known loading w w') (hunder : Under host gameDir path w w')
    (hdeps : ∀ dep ∈ image.neededModules, dep ∉ seeded →
      ∀ p, findModuleFile host gameDir dep = some p → Settled known w' p) :
    Ordered host gameDir known seeded
      ⟨lib :: path :: w'.loaded,w'.out ++ [⟨lib,path,gameDir,image⟩]⟩ := by
  have hmarked := h.mark hapart lib [path] (by simpa using ⟨lib,hpath⟩) (by
    intro p hp
    obtain rfl := Option.some.inj (hpath.symm.trans hp)
    exact .inl (by simp))
  have hsub : w'.loaded ⊆ lib :: path :: w'.loaded := fun s hs => by simp [hs]
  obtain ⟨-,new,hout,-,hall⟩ := hgrows
  refine ⟨hmarked.names,?_,?_⟩
  · intro c hc p hp
    rcases List.mem_append.mp hc with hc | hc
    · exact (h.settled c hc p hp).mono hsub
    · obtain rfl := List.mem_singleton.mp hc
      obtain ⟨dep,hdep,hnot,hfind⟩ := hp
      exact (hdeps dep hdep hnot p hfind).mono hsub
  · rw [List.pairwise_append]
    refine ⟨h.pairwise,List.pairwise_singleton _ _,?_⟩
    intro x hx c hc hneeds
    obtain rfl := List.mem_singleton.mp hc
    rcases List.mem_append.mp (hout ▸ hx) with hx | hx
    · rcases hw.settled x hx path hneeds with hcon | hcon
      · exact hnew.1 hcon
      · exact hnew.2 hcon
    · obtain ⟨dep,hdep,-,hfind⟩ := hneeds
      exact hacyclic path ((hunder new hout x hx).tail ⟨x.image,(hall x hx).1.read,dep,hdep,hfind⟩)

lemma Under.of_out (hout : w'.out = w.out) (top : String) : Under host gameDir top w w' := by
  intro new hnew c hc
  obtain rfl : new = [] := by simpa [hout] using hnew
  cases hc

/-- What is added under a file is added under what needs the file. -/
lemma Under.above {top : String} (htop : TransGen (Edge host gameDir) top path)
    (h : Under host gameDir path w w') (hout : ∃ new, w'.out = w.out ++ new) :
    Under host gameDir top w ⟨w'.loaded,w'.out ++ [⟨lib,path,gameDir,image⟩]⟩ := by
  obtain ⟨added,hadded⟩ := hout
  intro new hnew c hc
  have heq : new = added ++ [⟨lib,path,gameDir,image⟩] := by
    rw [hadded, List.append_assoc] at hnew
    exact (List.append_cancel_left hnew).symm
  rcases List.mem_append.mp (heq ▸ hc) with hc | hc
  · exact htop.trans (h added hadded c hc)
  · obtain rfl := List.mem_singleton.mp hc
    exact htop

lemma collectModuleGraph_ordered (hacyclic : Acyclic host gameDir) (hapart : NamesApart host gameDir)
    {fuel : ℕ} (hlib : lib ∈ host.names) (habove : Above host gameDir loading lib)
    (hw : Ordered host gameDir known seeded w)
    (h : collectModuleGraph host gameDir known fuel loading w lib = some w') :
    Ordered host gameDir known seeded w' ∧
    (lib ∉ seeded → ∀ p, findModuleFile host gameDir lib = some p → Settled known w' p) ∧
    ∀ top, (∀ p, findModuleFile host gameDir lib = some p → TransGen (Edge host gameDir) top p) →
      Under host gameDir top w w' := by
  induction fuel generalizing loading w w' lib with
  | zero => cases h
  | succ fuel ih =>
    rw [collectModuleGraph] at h
    split_ifs at h with hseen
    · obtain rfl := Option.some.inj h
      refine ⟨hw,fun hnot p hp => ?_,fun top _ => .of_out rfl top⟩
      rcases hseen with hseen | hseen
      · exact hw.names lib hlib hseen hnot p hp
      · exact absurd hseen (habove.not_mem hacyclic hapart hlib hp).1
    · split at h
      · rename_i hnone
        obtain rfl := Option.some.inj h
        exact ⟨hw.mark hapart lib [] (by simp) (by simp [hnone]),by simp [hnone],
          fun top _ => .of_out rfl top⟩
      · rename_i path hpath
        have hnot := (habove.not_mem hacyclic hapart hlib hpath).2
        have honly : ∀ {w₁ : Walk}, Settled known w₁ path →
            ∀ p, findModuleFile host gameDir lib = some p → Settled known w₁ p := by
          intro w₁ hsettled p hp
          obtain rfl := Option.some.inj (hpath.symm.trans hp)
          exact hsettled
        split_ifs at h with hfile
        · obtain rfl := Option.some.inj h
          have hsettled : Settled known { w with loaded := lib :: w.loaded } path := by
            rcases hfile with hfile | hfile | hfile
            · exact absurd hfile hnot
            · exact .inl (by simp [hfile])
            · exact .inr hfile
          exact ⟨hw.mark hapart lib [] (by simp) (honly hsettled),fun _ => honly hsettled,
            fun top _ => .of_out rfl top⟩
        · push Not at hfile
          split at h
          · rename_i image hread
            obtain ⟨w₁,hdeps,rfl⟩ := Option.map_eq_some_iff.mp h
            -- the loop over the needed names: it settles each, and adds only what this file needs
            obtain ⟨hw₁,⟨hgrows,hunder⟩,hall⟩ := foldlM_some
              (Ordered host gameDir known seeded)
              (fun u v => Grows host gameDir known (path :: lib :: loading) u v ∧
                Under host gameDir path u v)
              (fun dep u => dep ∉ seeded →
                ∀ p, findModuleFile host gameDir dep = some p → Settled known u p)
              (fun u => ⟨.refl u,.refl u⟩)
              (fun s t u hst htu => ⟨hst.1.trans htu.1,hst.2.trans htu.2 hst.1 htu.1⟩)
              (fun dep s t hst hp hdep p hfind => (hp hdep p hfind).mono hst.1.loaded)
              (fun u dep v hdep hu huv => by
                obtain ⟨hv,hset,hund⟩ := ih (Host.mem_names hread hdep)
                  (habove.down hlib hpath hread hdep) hu huv
                have hedge : ∀ p, findModuleFile host gameDir dep = some p →
                    TransGen (Edge host gameDir) path p :=
                  fun p hp => .single ⟨image,hread,dep,hdep,hp⟩
                exact ⟨hv,⟨collectModuleGraph_grows huv,hund path hedge⟩,hset⟩)
              hw hdeps
            refine ⟨hw₁.push hw hacyclic hapart hpath hfile.2 hgrows hunder hall,
              fun _ => honly (.inl (by simp)),fun top htop => ?_⟩
            obtain ⟨-,new,hnew,-⟩ := hgrows
            exact hunder.above (htop path hpath) ⟨new,hnew⟩
          · obtain rfl := Option.some.inj h
            have hsettled : Settled known { w with loaded := lib :: path :: w.loaded } path :=
              .inl (by simp)
            exact ⟨hw.mark hapart lib [path] (by simpa using ⟨lib,hpath⟩) (honly hsettled),
              fun _ => honly hsettled,fun top _ => .of_out rfl top⟩

/-- Over a graph without cycles a module is collected after the modules it needs, other than those
it needs under a name that counted as seen, and every one is needed by the image. -/
theorem collectNeeded_ordered (known seeded : List String) (hacyclic : Acyclic host gameDir)
    (hapart : NamesApart host gameDir) {path : String} {image : ExecutableImage}
    (h : host.read path = .image image) :
    ((collectNeeded host gameDir known seeded image).Pairwise fun c c' =>
      ¬NeedsPath host gameDir seeded c.image c'.path) ∧
    ∀ c ∈ collectNeeded host gameDir known seeded image, TransGen (Edge host gameDir) path c.path := by
  obtain ⟨w,hw,hout⟩ := exists_walk gameDir known seeded h
  have hstart : Ordered host gameDir known seeded ⟨seeded,[]⟩ :=
    ⟨fun name _ hmem hnot => absurd hmem hnot,by simp,by simp⟩
  obtain ⟨hordered,⟨-,hunder⟩,-⟩ := foldlM_some (Ordered host gameDir known seeded)
    (fun u v => Grows host gameDir known [] u v ∧ Under host gameDir path u v)
    (fun _ _ => True) (fun u => ⟨.refl u,.refl u⟩)
    (fun _ _ _ hst htu => ⟨hst.1.trans htu.1,hst.2.trans htu.2 hst.1 htu.1⟩) (fun _ _ _ _ => id)
    (fun u dep v hdep hu huv => by
      obtain ⟨hv,-,hund⟩ := collectModuleGraph_ordered hacyclic hapart (Host.mem_names h hdep)
        (by simp [Above]) hu huv
      exact ⟨hv,⟨collectModuleGraph_grows huv,hund path fun p hp => .single ⟨image,h,dep,hdep,hp⟩⟩,
        trivial⟩) hstart hw
  rw [hout]
  exact ⟨hordered.pairwise,hunder w.out rfl⟩

end Order

end Unemups4.Loader

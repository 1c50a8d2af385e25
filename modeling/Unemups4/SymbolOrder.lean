import Unemups4.LoadImage

/-! Which module a symbol is bound to: the first exporter in the order in which the map of the
registered modules happens to be traversed. -/
namespace Unemups4.Loader

section Find

variable {ι α : Type*} {f : ι → Option α} {xs ys : List ι}

/-- When all hits agree, the first one is any of them. -/
lemma findSome?_eq_some_iff_of_agree (h : ∀ x ∈ xs, ∀ y ∈ xs, ∀ a b, f x = some a → f y = some b → a = b)
    {a : α} : xs.findSome? f = some a ↔ ∃ x ∈ xs, f x = some a := by
  constructor
  · exact List.exists_of_findSome?_eq_some
  · rintro ⟨x,hx,hfx⟩
    cases hfind : xs.findSome? f with
    | none => exact absurd (List.findSome?_eq_none_iff.mp hfind x hx) (by simp [hfx])
    | some b =>
      obtain ⟨y,hy,hfy⟩ := List.exists_of_findSome?_eq_some hfind
      rw [h y hy x hx b a hfy hfx]

lemma findSome?_perm (hperm : xs.Perm ys)
    (h : ∀ x ∈ xs, ∀ y ∈ xs, ∀ a b, f x = some a → f y = some b → a = b) :
    xs.findSome? f = ys.findSome? f := by
  have h' : ∀ x ∈ ys, ∀ y ∈ ys, ∀ a b, f x = some a → f y = some b → a = b := by
    intro x hx y hy
    exact h x (hperm.mem_iff.mpr hx) y (hperm.mem_iff.mpr hy)
  apply Option.ext
  intro a
  rw [findSome?_eq_some_iff_of_agree h, findSome?_eq_some_iff_of_agree h']
  simp only [hperm.mem_iff]

end Find

/-- All exporters of a name give it one address. -/
def Agree (modules : List Module) (name : String) : Prop :=
  ∀ m ∈ modules, ∀ m' ∈ modules, ∀ addr addr', m.exports.lookup name = some addr →
    m'.exports.lookup name = some addr' → addr = addr'

/-- The traversal that meets a module first. -/
def MapOrder.front (m : Module) : MapOrder :=
  ⟨fun modules => if m ∈ modules then m :: modules.erase m else modules,fun modules => by
    split_ifs with h
    · exact (List.perm_cons_erase h).symm
    · exact .refl _⟩

/-- No traversal order shows, neither in what a name is bound to nor in what is relocated. -/
def OrderFree (st : LoadState) : Prop :=
  ∀ order order',
    (∀ name, resolveSymbol order st.manager.modules name =
      resolveSymbol order' st.manager.modules name) ∧
    ∀ image handle, relocateImage order st image handle = relocateImage order' st image handle

variable {st : LoadState} {modules : List Module} {name : String}

lemma resolveSymbol_front {m : Module} (hm : m ∈ modules) {addr : ℕ}
    (h : m.exports.lookup name = some addr) :
    resolveSymbol (.front m) modules name = some addr := by
  unfold resolveSymbol MapOrder.front
  dsimp only
  rw [if_pos hm, List.findSome?_cons, h]

lemma resolveSymbol_of_agree (h : Agree modules name) (order order' : MapOrder) :
    resolveSymbol order modules name = resolveSymbol order' modules name := by
  have hmem : ∀ m, m ∈ order.iter modules ↔ m ∈ modules := fun _ => (order.perm modules).mem_iff
  apply findSome?_perm ((order.perm modules).trans (order'.perm modules).symm)
  intro m hm m' hm'
  exact h m ((hmem m).mp hm) m' ((hmem m').mp hm')

/-- The order of the traversal does not show exactly when the exporters of each name agree. -/
theorem orderFree_iff (st : LoadState) :
    OrderFree st ↔ ∀ name, Agree st.manager.modules name := by
  constructor
  · intro h name m hm m' hm' addr addr' hexport hexport'
    have hname := (h (.front m) (.front m')).1 name
    rw [resolveSymbol_front hm hexport, resolveSymbol_front hm' hexport'] at hname
    exact Option.some.inj hname
  · intro h order order'
    have hresolve : resolveSymbol order st.manager.modules = resolveSymbol order' st.manager.modules :=
      funext fun name => resolveSymbol_of_agree (h name) order order'
    refine ⟨fun name => congrFun hresolve name,fun image handle => ?_⟩
    unfold relocateImage
    rw [hresolve]

/-- Two modules that export one name at different addresses. -/
def libcTwice : ModuleManager :=
  (ModuleManager.new.registerModule ⟨1,"libc",0x400000,0x1000,0x400000,[("malloc",0x400100)],false⟩
    ).registerModule ⟨2,"libSceLibcInternal",0x404000,0x1000,0x404000,[("malloc",0x404200)],false⟩

theorem not_orderFree_libcTwice : ¬∀ st, OrderFree st := by
  intro h
  have hmalloc := (h ⟨libcTwice,.new ⟨0x1000000000,fun _ _ => true,by decide,by decide⟩,⟨0,0,0,[]⟩⟩
    (.front ⟨1,"libc",0x400000,0x1000,0x400000,[("malloc",0x400100)],false⟩)
    (.front ⟨2,"libSceLibcInternal",0x404000,0x1000,0x404000,[("malloc",0x404200)],false⟩)).1 "malloc"
  exact absurd hmalloc (by decide)

end Unemups4.Loader

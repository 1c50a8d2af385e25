import Unemups4.MapPlaces

/-! What a request that fails leaves behind. An explicit placement leaves nothing that a later request
is answered from; the search for a free region moves the cursor before its result is held to the
bounds of the arena. -/
namespace Unemups4.Memory
open Transition (Reach)

namespace VmMemoryManager

variable (m : VmMemoryManager)

/-- What a request leaves, and its answer: an address for a map, and none for one that always goes
through. -/
def serve : MapCall → VmMemoryManager × Except MapError (Option ℕ)
  | .map addr size prot name =>
      ((m.map addr size prot name).1,(m.map addr size prot name).2.map some)
  | .mapAligned addr size align prot name =>
      ((m.mapAligned addr size align prot name).1,(m.mapAligned addr size align prot name).2.map some)
  | .unmap addr size => (m.unmap addr size,.ok none)
  | .protect addr size prot => (m.protect addr size prot,.ok none)

/-- The answers to a sequence of requests. -/
def replies (m : VmMemoryManager) : List MapCall → List (Except MapError (Option ℕ))
  | [] => []
  | call :: calls => (m.serve call).2 :: (m.serve call).1.replies calls

/-- A request is answered without a search. -/
def Unsearched (addr size : ℕ) : Prop :=
  addr ≠ 0 ∨ size = 0 ∨ m.vm.span-guestBase < size

/-- Managers that differ in the stores at most. -/
def SameTable (m m' : VmMemoryManager) : Prop := ∃ stores, m' = { m with stores := stores }

variable {m} {m' : VmMemoryManager}

lemma search_stores (stores : List Store) (size align fuel cursor : ℕ) :
    ({ m with stores := stores } : VmMemoryManager).search size align fuel cursor =
      m.search size align fuel cursor := by
  induction fuel generalizing cursor with
  | zero => rfl
  | succ fuel ih =>
    rw [search, search, ih, ih]
    rfl

lemma locate_stores (stores : List Store) (addr size align : ℕ) :
    ({ m with stores := stores } : VmMemoryManager).locate addr size align =
      m.locate addr size align := by
  unfold locate
  simp only [search_stores]
  rfl

lemma SameTable.place (h : SameTable m m') (addr size : ℕ) (prot : MemoryProtection)
    (name : Option String) : SameTable (m.place addr size prot name).1
        (m'.place addr size prot name).1 ∧
      (m'.place addr size prot name).2 = (m.place addr size prot name).2 := by
  obtain ⟨stores,rfl⟩ := h
  have hstale : ({ m with stores := stores } : VmMemoryManager).staleChunks addr size =
      m.staleChunks addr size := rfl
  rw [place_closed, place_closed, hstale]
  dsimp only
  split_ifs
  · exact ⟨⟨_,rfl⟩,rfl⟩
  · exact ⟨⟨_,rfl⟩,rfl⟩

lemma SameTable.mapAligned (h : SameTable m m') (addr size align : ℕ) (prot : MemoryProtection)
    (name : Option String) : SameTable (m.mapAligned addr size align prot name).1
        (m'.mapAligned addr size align prot name).1 ∧
      (m'.mapAligned addr size align prot name).2 = (m.mapAligned addr size align prot name).2 := by
  obtain ⟨stores,rfl⟩ := h
  have hlocate := locate_stores (m := m) stores addr size align
  rw [mapAligned_eq, mapAligned_eq, hlocate]
  cases m.locate addr size align with
  | mk cursor result =>
    cases result with
    | error e => exact ⟨⟨stores,rfl⟩,rfl⟩
    | ok base => exact SameTable.place ⟨stores,rfl⟩ base size prot name

/-- The answer to a request, and what it leaves of the table, do not depend on the stores. -/
lemma SameTable.serve (h : SameTable m m') (call : MapCall) :
    SameTable (m.serve call).1 (m'.serve call).1 ∧ (m'.serve call).2 = (m.serve call).2 := by
  cases call with
  | map addr size prot name =>
    obtain ⟨hsame,hreply⟩ := h.mapAligned addr size 0 prot name
    exact ⟨hsame,congrArg (Except.map some) hreply⟩
  | mapAligned addr size align prot name =>
    obtain ⟨hsame,hreply⟩ := h.mapAligned addr size align prot name
    exact ⟨hsame,congrArg (Except.map some) hreply⟩
  | unmap addr size =>
    obtain ⟨stores,rfl⟩ := h
    refine ⟨?_,rfl⟩
    dsimp only [VmMemoryManager.serve, VmMemoryManager.unmap]
    split_ifs
    · exact ⟨stores,rfl⟩
    · exact ⟨_,rfl⟩
  | protect addr size prot =>
    obtain ⟨stores,rfl⟩ := h
    exact ⟨⟨stores,rfl⟩,rfl⟩

lemma SameTable.replies (h : SameTable m m') (calls : List MapCall) :
    m'.replies calls = m.replies calls := by
  induction calls generalizing m m' with
  | nil => rfl
  | cons call calls ih =>
    obtain ⟨hsame,hreply⟩ := h.serve call
    rw [VmMemoryManager.replies, VmMemoryManager.replies, hreply, ih hsame]

/-- A request that fails without a search leaves the table as it was. -/
lemma sameTable_of_error {addr size align : ℕ} {prot : MemoryProtection} {name : Option String}
    {e : MapError} (hsearch : m.Unsearched addr size)
    (h : (m.mapAligned addr size align prot name).2 = .error e) :
    SameTable m (m.mapAligned addr size align prot name).1 := by
  have hcursor : (m.locate addr size align).1 = m.heapCursor := by
    unfold locate
    by_cases hzero : size = 0
    · rw [if_pos hzero]
    · rw [if_neg hzero]
      rcases hsearch with haddr | hcon | hbig
      · rw [if_neg haddr]
      · exact absurd hcon hzero
      · rw [if_pos hbig]
        split_ifs <;> rfl
  rw [mapAligned_eq] at h ⊢
  cases hlocate : m.locate addr size align with
  | mk cursor result =>
    rw [hlocate] at h hcursor
    obtain rfl : cursor = m.heapCursor := hcursor
    cases result with
    | error e => exact ⟨m.stores,rfl⟩
    | ok base =>
      dsimp only at h ⊢
      rw [place_closed] at h ⊢
      split_ifs at h ⊢
      exact ⟨_,rfl⟩

end VmMemoryManager

open VmMemoryManager

/-- In every state, a request that fails without a search has no effect on the answers to those that
follow. -/
theorem VmMemoryManager.replies_of_unsearched {m : VmMemoryManager} {addr size align : ℕ}
    {prot : MemoryProtection} {name : Option String} {e : MapError}
    (hsearch : m.Unsearched addr size)
    (hfail : (m.mapAligned addr size align prot name).2 = .error e) (calls : List MapCall) :
    (m.mapAligned addr size align prot name).1.replies calls = m.replies calls :=
  (sameTable_of_error hsearch hfail).replies calls

namespace TableRun

/-- A request for the whole arena fails where the search comes to a place, and takes the heap away
from all that follow. -/
theorem not_replies_oversized : ¬∀ s, Reach step (Initial defaultVm) (fun _ _ => True) s →
    ∀ addr size align prot name e, (s.manager.mapAligned addr size align prot name).2 = .error e →
      ∀ calls, (s.manager.mapAligned addr size align prot name).1.replies calls =
        s.manager.replies calls := by
  intro h
  have hsame := h ⟨new defaultVm,[]⟩ (.start rfl) 0 0xFFFFF0000 0 readWrite none .beyondSpan
    (by decide +kernel) [.map 0 0x1000 readWrite none]
  exact absurd hsame (by decide +kernel)

/-- A request for the gadget's page collides with it. -/
theorem replies_of_unsearched_gadget :
    ((new defaultVm).mapAligned gadgetAddr 0x1000 0 readWrite none).1.replies
        [.map 0 0x1000 readWrite none] =
      (new defaultVm).replies [.map 0 0x1000 readWrite none] :=
  VmMemoryManager.replies_of_unsearched (e := .collision) (.inl (by decide)) (by decide +kernel) _

end TableRun

end Unemups4.Memory

import Unemups4.SyncManager

/-! The arena of the small objects that the host keeps in guest memory: a cursor that moves up,
and lists of the blocks given back, one for each rounded size. The blocks handed out lie apart as
long as what is given back is a block, or the room of one. -/
namespace Unemups4.Kernel

open Transition (Reach)

/-- An allocation as its caller sees it. -/
structure HleBlock where
  addr : GuestAddr
  size : ℕ
  deriving DecidableEq, Repr

/-- Where a thread is in a call: with no block of the size to recycle, or with the cursor read
and not yet exchanged. -/
inductive HlePc where
  | idle
  | grow (size : ℕ)
  | exchange (size cur : ℕ)
  | done (addr : GuestAddr)
  deriving DecidableEq, Repr

inductive HleAct where
  | hleAlloc (size : ℕ)
  | hleFree (addr : GuestAddr) (size : ℕ)
  | go
  deriving DecidableEq, Repr

/-- The arena and its callers, with the blocks handed out and not passed to `hleFree` since. -/
structure HleArena where
  base : GuestAddr
  cursor : GuestAddr
  limit : GuestAddr
  freeList : ℕ → List GuestAddr
  pc : Tid → HlePc
  live : List HleBlock

namespace HleArena

def unset : HleArena := ⟨0,0,0,fun _ => [],fun _ => .idle,[]⟩

def setHleArena (s : HleArena) (base size : ℕ) : HleArena :=
  { s with base := base, cursor := base, limit := (base+size)%2^64 }

/-- A size to the next 16 bytes, in words. -/
def rounded (size : ℕ) : ℕ := (size+15)%2^64/16*16

/-- The bytes from an address on. -/
def room (addr : GuestAddr) (size : ℕ) : Set GuestAddr := Set.Ico addr (addr+size)

variable (s : HleArena) (t : Tid)

def goto (pc : HlePc) : HleArena := { s with pc := Function.update s.pc t pc }

/-- The call returns a block. -/
def handOut (addr : GuestAddr) (size : ℕ) : HleArena :=
  { s.goto t (.done addr) with live := ⟨addr,size⟩ :: s.live }

def setList (r : ℕ) (list : List GuestAddr) : HleArena :=
  { s with freeList := Function.update s.freeList r list }

/-- The first half of an allocation, under the lock of the lists. -/
def recycle (size : ℕ) : HleArena :=
  match (s.freeList (rounded size)).getLast? with
  | some addr => (s.setList (rounded size) (s.freeList (rounded size)).dropLast).handOut t addr size
  | none => s.goto t (.grow size)

/-- The cursor is read; the sum wraps. -/
def readCursor (size : ℕ) : HleArena :=
  if s.cursor = 0 ∨ s.limit < (s.cursor+rounded size)%2^64 then s.goto t (.done 0)
  else s.goto t (.exchange size s.cursor)

/-- Another thread may have moved the cursor. -/
def exchangeCursor (size cur : ℕ) : HleArena :=
  if s.cursor = cur then { s.handOut t cur size with cursor := (cur+rounded size)%2^64 }
  else s.goto t (.grow size)

def Ignored (addr : GuestAddr) : Prop :=
  addr = 0 ∨ s.limit = 0 ∨ addr < s.base ∨ s.limit ≤ addr

instance (addr : GuestAddr) : Decidable (s.Ignored addr) :=
  inferInstanceAs (Decidable (addr = 0 ∨ s.limit = 0 ∨ addr < s.base ∨ s.limit ≤ addr))

/-- From now on no block at the address counts as handed out. -/
def passed (addr : GuestAddr) : HleArena := { s with live := s.live.filter fun b => b.addr ≠ addr }

def hleFree (addr : GuestAddr) (size : ℕ) : HleArena :=
  if s.Ignored addr then s.passed addr
  else if addr ∈ s.freeList (rounded size) then s.passed addr
  else (s.setList (rounded size) (s.freeList (rounded size)++[addr])).passed addr

def next : HleAct → Option HleArena
  | .hleAlloc size =>
      match s.pc t with
      | .idle | .done _ => some (s.recycle t size)
      | .grow _ | .exchange _ _ => none
  | .hleFree addr size =>
      match s.pc t with
      | .idle | .done _ => some ((s.goto t .idle).hleFree addr size)
      | .grow _ | .exchange _ _ => none
  | .go =>
      match s.pc t with
      | .grow size => some (s.readCursor t size)
      | .exchange size cur => some (s.exchangeCursor t size cur)
      | .idle | .done _ => none

def step (s : HleArena) (l : Tid × HleAct) : Option HleArena := s.next l.1 l.2

/-- No arena yet, or one that starts at a multiple of 16, as the installer's does, and ends
below the last word. -/
def Initial (s : HleArena) : Prop :=
  s = unset ∨ ∃ base size, 16 ∣ base ∧ base+size < 2^64 ∧ s = unset.setHleArena base size

/-- The blocks handed out lie apart, at multiples of 16, in the arena. -/
structure Sound (s : HleArena) : Prop where
  apart : s.live.Pairwise fun b c => Disjoint (room b.addr b.size) (room c.addr c.size)
  aligned : ∀ b ∈ s.live, 16 ∣ b.addr
  inside : ∀ b ∈ s.live, s.base ≤ b.addr ∧ b.addr+b.size ≤ s.limit

/-- What is given back is dropped, or listed already, or taken from the cursor before and apart
from every other block handed out and every block listed. -/
def Returned (s : HleArena) (addr : GuestAddr) (size : ℕ) : Prop :=
  s.Ignored addr ∨ addr ∈ s.freeList (rounded size) ∨
    (16 ∣ addr ∧ addr+rounded size ≤ s.cursor ∧
      (∀ b ∈ s.live, b.addr ≠ addr →
        Disjoint (room addr (rounded size)) (room b.addr (rounded b.size))) ∧
      ∀ r, ∀ a ∈ s.freeList r, Disjoint (room addr (rounded size)) (room a r))

/-- No sum of an allocation wraps while there is an arena, and blocks are given back with
care. -/
def Careful (s : HleArena) (l : Tid × HleAct) : Prop :=
  match l.2 with
  | .hleAlloc size => s.cursor = 0 ∨ size+15 < 2^64
  | .hleFree addr size => s.Returned addr size
  | .go => ∀ size, s.pc l.1 = .grow size → s.cursor = 0 ∨ s.cursor+rounded size < 2^64

section Rooms

variable {a b m n : ℕ}

lemma dvd_rounded (size : ℕ) : 16 ∣ rounded size := Dvd.intro_left _ rfl

lemma le_rounded {size : ℕ} (h : size+15 < 2^64) : size ≤ rounded size := by
  rw [rounded, Nat.mod_eq_of_lt h]
  omega

lemma room_apart (h : a+m ≤ b) : Disjoint (room a m) (room b n) := by
  rw [room, room, Set.Ico_disjoint_Ico]
  exact (min_le_left _ _).trans (h.trans (le_max_right _ _))

lemma room_mono (h : m ≤ n) : room a m ⊆ room a n :=
  Set.Ico_subset_Ico_right (Nat.add_le_add_left h a)

end Rooms

/-- What a thread's place says of the call it is in. -/
def PcKept (cursor limit : GuestAddr) : HlePc → Prop
  | .grow size => cursor = 0 ∨ size ≤ rounded size
  | .exchange size cur => cur ≠ 0 ∧ size ≤ rounded size ∧ cur+rounded size ≤ limit
  | .idle | .done _ => True

/-- The blocks handed out and the listed ones, by their rounded sizes, lie apart below the
cursor. -/
structure Kept (s : HleArena) : Prop where
  base_le : s.base ≤ s.cursor
  cursor_le : s.cursor ≤ s.limit
  limit_lt : s.limit < 2^64
  aligned : 16 ∣ s.cursor
  handed : ∀ b ∈ s.live, 16 ∣ b.addr ∧ s.base ≤ b.addr ∧ b.addr+rounded b.size ≤ s.cursor ∧
    b.size ≤ rounded b.size
  listed : ∀ r, ∀ a ∈ s.freeList r, 16 ∣ a ∧ 0 < a ∧ s.base ≤ a ∧ a+r ≤ s.cursor
  once : ∀ r, (s.freeList r).Nodup
  handed_apart : s.live.Pairwise fun b c =>
    Disjoint (room b.addr (rounded b.size)) (room c.addr (rounded c.size))
  listed_apart : ∀ r, ∀ a ∈ s.freeList r, ∀ r', ∀ a' ∈ s.freeList r', (r = r' → a ≠ a') →
    Disjoint (room a r) (room a' r')
  mixed_apart : ∀ b ∈ s.live, ∀ r, ∀ a ∈ s.freeList r,
    Disjoint (room a r) (room b.addr (rounded b.size))
  calls : ∀ t, PcKept s.cursor s.limit (s.pc t)

variable {s} {t} {addr : GuestAddr} {size r : ℕ} {pc : HlePc} {list : List GuestAddr}

lemma Kept.sound (h : s.Kept) : s.Sound where
  apart := by
    refine h.handed_apart.imp_of_mem fun {b c} hb hc hbc => ?_
    exact hbc.mono (room_mono (h.handed b hb).2.2.2) (room_mono (h.handed c hc).2.2.2)
  aligned b hb := (h.handed b hb).1
  inside b hb := by
    obtain ⟨-,hbase,htop,hsize⟩ := h.handed b hb
    exact ⟨hbase,(Nat.add_le_add_left hsize _).trans (htop.trans h.cursor_le)⟩

lemma Kept.goto (h : s.Kept) (hpc : PcKept s.cursor s.limit pc) : (s.goto t pc).Kept :=
  { h with
    calls := fun u => by
      by_cases hu : u = t
      · subst hu
        simpa [HleArena.goto] using hpc
      · simpa [HleArena.goto, hu] using h.calls u }

lemma Kept.passed (h : s.Kept) (addr : GuestAddr) : (s.passed addr).Kept :=
  { h with
    handed := fun b hb => h.handed b (List.mem_of_mem_filter hb)
    handed_apart := h.handed_apart.filter _
    mixed_apart := fun b hb => h.mixed_apart b (List.mem_of_mem_filter hb) }

lemma Kept.handOut (h : s.Kept) (haddr : 16 ∣ addr) (hbase : s.base ≤ addr)
    (htop : addr+rounded size ≤ s.cursor) (hsize : size ≤ rounded size)
    (hlive : ∀ b ∈ s.live, Disjoint (room addr (rounded size)) (room b.addr (rounded b.size)))
    (hlist : ∀ r, ∀ a ∈ s.freeList r, Disjoint (room a r) (room addr (rounded size))) :
    (s.handOut t addr size).Kept :=
  have hdone : (s.goto t (.done addr)).Kept := h.goto trivial
  { hdone with
    handed := List.forall_mem_cons.mpr ⟨⟨haddr,hbase,htop,hsize⟩,h.handed⟩
    handed_apart := List.pairwise_cons.mpr ⟨hlive,h.handed_apart⟩
    mixed_apart := List.forall_mem_cons.mpr ⟨hlist,h.mixed_apart⟩ }

@[simp] lemma mem_setList {r' a : ℕ} : a ∈ (s.setList r list).freeList r' ↔
    (r' = r ∧ a ∈ list) ∨ (r' ≠ r ∧ a ∈ s.freeList r') := by
  by_cases h : r' = r
  · subst h
    simp [setList]
  · simp [setList, h]

/-- A list that gives a block up. -/
lemma Kept.pop (h : s.Kept) (hlist : s.freeList r = list++[addr]) : (s.setList r list).Kept := by
  have hsub : ∀ r', (s.setList r list).freeList r' <+: s.freeList r' := by
    intro r'
    by_cases hr : r' = r
    · subst hr
      simp [setList, hlist]
    · simp [setList, hr]
  exact
    { h with
      listed := fun r' a ha => h.listed r' a ((hsub r').subset ha)
      once := fun r' => (h.once r').sublist (hsub r').sublist
      listed_apart := fun r₁ a ha r₂ a' ha' =>
        h.listed_apart r₁ a ((hsub r₁).subset ha) r₂ a' ((hsub r₂).subset ha')
      mixed_apart := fun b hb r' a ha => h.mixed_apart b hb r' a ((hsub r').subset ha) }

/-- A block that lies apart from all others joins its list. -/
lemma Kept.push (h : s.Kept) (haddr : 16 ∣ addr) (hpos : 0 < addr) (hbase : s.base ≤ addr)
    (htop : addr+r ≤ s.cursor) (hnew : addr ∉ s.freeList r)
    (hlive : ∀ b ∈ s.live, Disjoint (room addr r) (room b.addr (rounded b.size)))
    (hlist : ∀ r', ∀ a ∈ s.freeList r', Disjoint (room addr r) (room a r')) :
    (s.setList r (s.freeList r++[addr])).Kept := by
  have hmem : ∀ r' a, a ∈ (s.setList r (s.freeList r++[addr])).freeList r' ↔
      a ∈ s.freeList r' ∨ (r' = r ∧ a = addr) := by
    intro r' a
    by_cases hr : r' = r
    · simp [hr]
    · simp [hr]
  refine { h with listed := ?_, once := ?_, listed_apart := ?_, mixed_apart := ?_ }
  · intro r' a ha
    obtain ha | ⟨rfl,rfl⟩ := (hmem r' a).mp ha
    · exact h.listed r' a ha
    · exact ⟨haddr,hpos,hbase,htop⟩
  · intro r'
    by_cases hr : r' = r
    · subst hr
      simpa [setList, List.nodup_append, h.once] using fun a ha => ne_of_mem_of_not_mem ha hnew
    · simpa [setList, hr] using h.once r'
  · intro r₁ a ha r₂ a' ha' hne
    rw [hmem] at ha ha'
    obtain ha | ⟨rfl,rfl⟩ := ha
    · obtain ha' | ⟨rfl,rfl⟩ := ha'
      · exact h.listed_apart r₁ a ha r₂ a' ha' hne
      · exact (hlist r₁ a ha).symm
    · obtain ha' | ⟨rfl,rfl⟩ := ha'
      · exact hlist r₂ a' ha'
      · exact absurd rfl (hne rfl)
  · intro b hb r' a ha
    obtain ha | ⟨rfl,rfl⟩ := (hmem r' a).mp ha
    · exact h.mixed_apart b hb r' a ha
    · exact hlive b hb

/-- The cursor moves up. -/
lemma Kept.raise (h : s.Kept) (hpos : s.cursor ≠ 0) (hr : 16 ∣ r) (htop : s.cursor+r ≤ s.limit) :
    { s with cursor := s.cursor+r }.Kept :=
  { h with
    base_le := h.base_le.trans (Nat.le_add_right _ r)
    cursor_le := htop
    aligned := Nat.dvd_add h.aligned hr
    handed := fun b hb => by
      obtain ⟨haddr,hbase,hle,hsize⟩ := h.handed b hb
      exact ⟨haddr,hbase,hle.trans (Nat.le_add_right _ r),hsize⟩
    listed := fun r' a ha => by
      obtain ⟨haddr,hpos,hbase,hle⟩ := h.listed r' a ha
      exact ⟨haddr,hpos,hbase,hle.trans (Nat.le_add_right _ r)⟩
    calls := fun t => by
      have hcall := h.calls t
      cases hpc : s.pc t with
      | grow size =>
        rw [hpc] at hcall
        simpa [hpc, PcKept] using Or.inr (hcall.resolve_left hpos)
      | exchange size cur => simpa [hpc, PcKept] using hcall
      | idle => trivial
      | done addr => trivial }

lemma Kept.recycle (h : s.Kept) (hsize : s.cursor = 0 ∨ size+15 < 2^64) :
    (s.recycle t size).Kept := by
  unfold HleArena.recycle
  split
  next addr hlast =>
    have hlist := (List.dropLast_append_getLast? addr hlast).symm
    have hmem : addr ∈ s.freeList (rounded size) := List.mem_of_getLast? hlast
    obtain ⟨haddr,hpos,hbase,htop⟩ := h.listed _ _ hmem
    have hcursor : s.cursor ≠ 0 := (hpos.trans_le ((Nat.le_add_right _ _).trans htop)).ne'
    refine (h.pop hlist).handOut haddr hbase htop (le_rounded (hsize.resolve_left hcursor)) ?_ ?_
    · exact fun b hb => h.mixed_apart b hb _ _ hmem
    · intro r a ha
      obtain ⟨rfl,ha'⟩ | ⟨hr,ha'⟩ := mem_setList.mp ha
      · have honce := h.once (rounded size)
        rw [hlist] at honce
        have hne : a ≠ addr := by
          rintro rfl
          exact List.disjoint_of_nodup_append honce ha' (List.mem_singleton_self a)
        exact h.listed_apart _ a (List.mem_of_mem_dropLast ha') _ addr hmem fun _ => hne
      · exact h.listed_apart r a ha' _ addr hmem fun heq => absurd heq hr
  next => exact h.goto (hsize.imp_right le_rounded)

lemma Kept.readCursor (h : s.Kept) (hpc : s.pc t = .grow size)
    (hsum : s.cursor = 0 ∨ s.cursor+rounded size < 2^64) : (s.readCursor t size).Kept := by
  unfold HleArena.readCursor
  split_ifs with hfull
  · exact h.goto trivial
  · obtain ⟨hpos,hle⟩ := not_or.mp hfull
    have hcall := h.calls t
    rw [hpc] at hcall
    rw [Nat.mod_eq_of_lt (hsum.resolve_left hpos), not_lt] at hle
    exact h.goto ⟨hpos,hcall.resolve_left hpos,hle⟩

lemma Kept.exchangeCursor {cur : GuestAddr} (h : s.Kept) (hpc : s.pc t = .exchange size cur) :
    (s.exchangeCursor t size cur).Kept := by
  have hcall := h.calls t
  rw [hpc] at hcall
  obtain ⟨hpos,hsize,htop⟩ := hcall
  unfold HleArena.exchangeCursor
  split_ifs with hcur
  · subst hcur
    rw [Nat.mod_eq_of_lt (htop.trans_lt h.limit_lt)]
    refine (h.raise hpos (dvd_rounded size) htop).handOut h.aligned h.base_le (le_refl _) hsize ?_ ?_
    · exact fun b hb => (room_apart (h.handed b hb).2.2.1).symm
    · exact fun r a ha => room_apart (h.listed r a ha).2.2.2
  · exact h.goto (Or.inr hsize)

lemma Kept.hleFree (h : s.Kept) (hret : s.Returned addr size) : (s.hleFree addr size).Kept := by
  unfold HleArena.hleFree
  split_ifs with hignored hmem
  · exact h.passed addr
  · exact h.passed addr
  · obtain ⟨haddr,htop,hlive,hlist⟩ := (hret.resolve_left hignored).resolve_left hmem
    simp only [Ignored, not_or, not_lt, not_le] at hignored
    obtain ⟨hpos,-,hbase,-⟩ := hignored
    refine (h.passed addr).push haddr (Nat.pos_of_ne_zero hpos) hbase htop hmem ?_ hlist
    intro b hb
    obtain ⟨hb,hne⟩ := List.mem_filter.mp hb
    exact hlive b hb (of_decide_eq_true hne)

lemma kept_step {l : Tid × HleAct} {s' : HleArena} (h : s.Kept) (hcare : s.Careful l)
    (hstep : s.step l = some s') : s'.Kept := by
  obtain ⟨t,act⟩ := l
  cases act with
  | hleAlloc size =>
    have hnext : s' = s.recycle t size := by
      cases hpc : s.pc t <;> simp_all [step, next]
    exact hnext ▸ h.recycle hcare
  | hleFree addr size =>
    have hnext : s' = (s.goto t .idle).hleFree addr size := by
      cases hpc : s.pc t <;> simp_all [step, next]
    have hidle : (s.goto t .idle).Kept := h.goto trivial
    exact hnext ▸ hidle.hleFree hcare
  | go =>
    cases hpc : s.pc t with
    | grow size =>
      have hnext : s' = s.readCursor t size := by simp_all [step, next]
      exact hnext ▸ h.readCursor hpc (hcare size hpc)
    | exchange size cur =>
      have hnext : s' = s.exchangeCursor t size cur := by simp_all [step, next]
      exact hnext ▸ h.exchangeCursor hpc
    | idle => simp [step, next, hpc] at hstep
    | done addr => simp [step, next, hpc] at hstep

lemma kept_initial (h : Initial s) : s.Kept := by
  have hempty : unset.Kept := by
    constructor <;> simp [unset, PcKept]
  obtain rfl | ⟨base,size,hbase,hsize,rfl⟩ := h
  · exact hempty
  · exact
      { hempty with
        base_le := le_refl base
        cursor_le := (Nat.le_add_right base size).trans_eq (Nat.mod_eq_of_lt hsize).symm
        limit_lt := Nat.mod_lt _ (by decide)
        aligned := hbase
        handed := by simp [setHleArena, unset]
        listed := by simp [setHleArena, unset]
        calls := fun _ => trivial }

lemma kept_reach (hs : Reach step Initial Careful s) : s.Kept :=
  hs.invariant (fun _ => kept_initial) fun _ _ _ h hcare hstep => kept_step h hcare hstep

/-- In every run in which no sum of an allocation wraps and what is given back is a block, or
the room of one, the blocks handed out lie apart, at multiples of 16, in the arena. -/
theorem objects_apart (hs : Reach step Initial Careful s) : s.Sound :=
  (kept_reach hs).sound

/-- A block is given back, a second thread gets it, and the first one the next. -/
theorem objects_apart_recycled : ∃ s : HleArena, s.Sound ∧ s.live = [⟨80,64⟩,⟨16,64⟩] := by
  have hgo : ∀ {s : HleArena} {pc : HlePc}, s.pc 0 = pc → (pc = .grow 64 ∨ pc = .exchange 64 s.cursor) →
      s.cursor < 256 → s.Careful (0,.go) := by
    rintro s pc hpc (rfl | rfl) hcursor size hsize
    · rw [hpc] at hsize
      cases hsize
      exact Or.inr ((Nat.add_lt_add_right hcursor (rounded 64)).trans (by decide))
    · rw [hpc] at hsize
      cases hsize
  have hfree : ∀ {s : HleArena}, s.cursor = 80 → s.live = [⟨16,64⟩] → (∀ r, s.freeList r = []) →
      s.Careful (0,.hleFree 16 64) := by
    intro s hcursor hlive hlist
    refine Or.inr (Or.inr ⟨by decide,hcursor ▸ by decide,?_,?_⟩)
    · intro b hb hne
      rw [hlive, List.mem_singleton] at hb
      exact absurd (hb ▸ rfl) hne
    · intro r a ha
      simp [hlist r] at ha
  refine ⟨_,objects_apart (.step (.step (.step (.step (.step (.step (.step (.step (.start
    (Or.inr ⟨16,256,by decide,by decide,rfl⟩))
    (l := (0,.hleAlloc 64)) (Or.inr (by decide)) rfl)
    (l := (0,.go)) (hgo rfl (Or.inl rfl) (by decide)) rfl)
    (l := (0,.go)) (hgo rfl (Or.inr rfl) (by decide)) rfl)
    (l := (0,.hleFree 16 64)) (hfree rfl rfl fun _ => rfl) rfl)
    (l := (1,.hleAlloc 64)) (Or.inr (by decide)) rfl)
    (l := (0,.hleAlloc 64)) (Or.inr (by decide)) rfl)
    (l := (0,.go)) (hgo rfl (Or.inl rfl) (by decide)) rfl)
    (l := (0,.go)) (hgo rfl (Or.inr rfl) (by decide)) rfl),rfl⟩

/-- An address inside a block is given back: the next block starts there, off the multiples of
16, while the first one is in use. -/
theorem not_objects_apart_inside : ¬∀ s : HleArena, Reach step Initial (fun _ _ => True) s → s.Sound := by
  intro h
  have hrun : ((Transition.exec (Transition.guarded step fun _ _ => True)
      (unset.setHleArena 0x2000 0x100000)
      [(0,.hleAlloc 64),(0,.go),(0,.go),(0,.hleFree 0x2008 64),(0,.hleAlloc 64)]).map
        HleArena.live) = some [⟨0x2008,64⟩,⟨0x2000,64⟩] := by
    decide
  obtain ⟨s,hs,hlive⟩ := Option.map_eq_some_iff.mp hrun
  have hstart : Reach step Initial (fun _ _ => True) (unset.setHleArena 0x2000 0x100000) :=
    .start (Or.inr ⟨_,_,by decide,by decide,rfl⟩)
  have hsound := h s (hstart.exec hs)
  have haligned := hsound.aligned ⟨0x2008,64⟩ (by simp [hlive])
  exact absurd haligned (by decide)

end HleArena

end Unemups4.Kernel

import Unemups4.Intervals
import Unemups4.VmaTable
import Unemups4.Words

/-! Direct memory: offsets into the pool are handed out by a cursor that never goes back, and the
outstanding reservations are kept by offset and length. A release may start anywhere, and trims or
splits what it overlaps. -/
namespace Unemups4.Memory
open Transition (Reach)
open Intervals (Covers Ordered)
open Words

def directMemoryPage : ℕ := 0x1000

/-- `reservations` holds the lengths, ordered by the offsets that they start at. -/
structure DirectMemory where
  nextOff : ℕ
  reservations : List (ℕ × ℕ)
  deriving DecidableEq, Repr

namespace DirectMemory

def empty : DirectMemory := ⟨0,[]⟩

def physToVa (off : ℕ) : ℕ := wrap (directMemoryPoolBase+off)

variable (d : DirectMemory)

/-- `none` tells that the pool is exhausted. -/
def allocate (len align : ℕ) : DirectMemory × Option ℕ :=
  match checkedNextMultipleOf (max len directMemoryPage) directMemoryPage with
  | none => (d,none)
  | some len =>
      let off := wrap (nextMultipleOf d.nextOff (max align directMemoryPage))
      if off+len < 2^64 ∧ off+len ≤ directMemoryPoolSize then
        (⟨off+len,insertKey off len d.reservations⟩,some off)
      else (d,none)

/-- The head and the tail of a reservation outlive the release of what is between them. -/
def trimReservation (start stop : ℕ) (reservations : List (ℕ × ℕ)) (e : ℕ × ℕ) : List (ℕ × ℕ) :=
  let re := wrap (e.1+e.2)
  let removed := reservations.filter fun entry => entry.1 ≠ e.1
  let headed := if e.1 < start then insertKey e.1 (start-e.1) removed else removed
  if stop < re then insertKey stop (re-stop) headed else headed

def trimReservations (start stop : ℕ) : DirectMemory :=
  let overlapping := d.reservations.filter fun e => e.1 < stop ∧ start < wrap (e.1+e.2)
  { d with reservations := overlapping.foldl (trimReservation start stop) d.reservations }

/-- The reservation that an offset lies in. -/
def covering (off : ℕ) : Option (ℕ × ℕ) :=
  (d.reservations.filter fun e => e.1 ≤ off).getLast?.filter fun e => off < wrap (e.1+e.2)

/-- The length of a release: in whole pages, and without one the rest of the reservation. -/
def freeLen (off len : ℕ) : ℕ :=
  if wrap (nextMultipleOf len directMemoryPage) = 0 then
    ((d.covering off).map fun e => wrap (e.1+e.2)-off).getD directMemoryPage
  else wrap (nextMultipleOf len directMemoryPage)

/-- It yields the address and the length that were freed, and `none` for an offset that is not of
the pool. -/
def takeForRelease (off len : ℕ) : DirectMemory × Option (ℕ × ℕ) :=
  if directMemoryPoolSize ≤ off then (d,none)
  else
    let stop := min (wrap (off+d.freeLen off len)) directMemoryPoolSize
    (d.trimReservations off stop,some (physToVa off,wrap (2^64+stop-off)))

end DirectMemory

/-- A range that was handed out, and the arguments of a release. -/
inductive DirectEvent where
  | allocated (off len : ℕ)
  | released (off len : ℕ)
  deriving DecidableEq, Repr

inductive DirectCall where
  | allocate (len align : UInt64)
  | takeForRelease (off len : UInt64)
  deriving DecidableEq, Repr

/-- The log has the latest event first. -/
structure DirectRun where
  memory : DirectMemory
  log : List DirectEvent
  deriving DecidableEq, Repr

/-- The bytes that a reservation of a length takes: whole pages, and one at least. -/
def reservedLen (len : ℕ) : ℕ := nextMultipleOf (max len directMemoryPage) directMemoryPage

namespace DirectRun

def Initial (s : DirectRun) : Prop := s = ⟨.empty,[]⟩

/-- A call, with the range that it hands out noted. -/
def allocate (s : DirectRun) (len align : ℕ) : DirectRun :=
  ⟨(s.memory.allocate len align).1,match (s.memory.allocate len align).2 with
    | none => s.log
    | some off => .allocated off (reservedLen len) :: s.log⟩

/-- A release is noted as it was asked for, whatever it did. -/
def takeForRelease (s : DirectRun) (off len : ℕ) : DirectRun :=
  ⟨(s.memory.takeForRelease off len).1,.released off len :: s.log⟩

def step (s : DirectRun) : DirectCall → Option DirectRun
  | .allocate len align => some (s.allocate len.toNat align.toNat)
  | .takeForRelease off len => some (s.takeForRelease off.toNat len.toNat)

/-- A release whose end is an offset. -/
def Careful (_ : DirectRun) : DirectCall → Prop
  | .allocate _ _ => True
  | .takeForRelease off len => off.toNat+nextMultipleOf len.toNat directMemoryPage < 2^64

instance (s : DirectRun) (call : DirectCall) : Decidable (Careful s call) :=
  match call with
  | .allocate _ _ => inferInstanceAs (Decidable True)
  | .takeForRelease off len =>
      inferInstanceAs (Decidable (off.toNat+nextMultipleOf len.toNat directMemoryPage < 2^64))

end DirectRun

/-- The ranges that were allocated, whether released since or not. -/
def handedOut (log : List DirectEvent) : List (ℕ × ℕ) :=
  log.filterMap fun
    | .allocated off len => some (off,len)
    | .released _ _ => none

/-- Whether a release of the arguments takes back the byte `x`, over the bytes that are outstanding
and the ranges that were allocated: a length counts in whole pages; without one, all that is
outstanding from the offset on of the allocation around it, and one page where there is none. -/
def TakesBack (outstanding : ℕ → Prop) (ranges : List (ℕ × ℕ)) (off len x : ℕ) : Prop :=
  off ≤ x ∧ if len = 0 then
      (outstanding off → ∃ a ∈ ranges, a.1 ≤ off ∧ x < a.1+a.2 ∧ ∀ y, off ≤ y → y ≤ x → outstanding y) ∧
      (¬outstanding off → x < off+directMemoryPage)
    else x < off+nextMultipleOf len directMemoryPage

/-- A byte was allocated and not released since. -/
def Outstanding : (log : List DirectEvent) → (x : ℕ) → Prop
  | [], _ => False
  | .allocated off len :: log, x => (off ≤ x ∧ x < off+len) ∨ Outstanding log x
  | .released off len :: log, x =>
      Outstanding log x ∧ ¬TakesBack (Outstanding log) (handedOut log) off len x

/-- Two ranges by offset and length have no byte in common. -/
def RangesApart (a b : ℕ × ℕ) : Prop := a.1+a.2 ≤ b.1 ∨ b.1+b.2 ≤ a.1

section Insert

variable {V : Type*} {key : ℕ} {value : V} {l l' : List (ℕ × V)}

/-- An entry whose key is a new one goes in at its place. -/
lemma insertKey_split (hl : ∀ entry ∈ l, entry.1 < key) (hl' : ∀ entry ∈ l', key < entry.1) :
    insertKey key value (l++l') = l++(key,value) :: l' := by
  have hnew : (l++l').filter (fun entry => entry.1 ≠ key) = l++l' := by
    refine List.filter_eq_self.mpr fun entry he => decide_eq_true ?_
    rcases List.mem_append.mp he with he | he
    · exact (hl entry he).ne
    · exact (hl' entry he).ne'
  rw [insertKey, hnew]
  clear hnew
  induction l with
  | nil =>
    cases l' with
    | nil => rfl
    | cons entry l' => exact List.orderedInsert_cons_of_le _ _ (hl' entry List.mem_cons_self).le
  | cons entry l ih =>
    have hgt : ¬key ≤ entry.1 := not_le.mpr (hl entry List.mem_cons_self)
    rw [List.cons_append, List.orderedInsert_of_not_le (r := fun a b : ℕ × V => a.1 ≤ b.1) _ hgt,
      ih fun entry he => hl entry (List.mem_cons_of_mem _ he)]
    rfl

end Insert

namespace DirectMemory

def stopOf (e : ℕ × ℕ) : ℕ := e.1+e.2

/-- The reservation between two offsets. -/
def between (start stop : ℕ) : ℕ × ℕ := (start,stop-start)

lemma makes_between : Intervals.Makes Prod.fst stopOf between where
  lo_mk _ := rfl
  hi_mk hlt := Nat.add_sub_of_le hlt.le

/-- Nothing reaches beyond the pool. -/
structure Within (d : DirectMemory) : Prop where
  nextOff : d.nextOff ≤ directMemoryPoolSize
  reservations : ∀ e ∈ d.reservations, stopOf e ≤ directMemoryPoolSize

/-- The reservations are in order and apart, and end at the cursor or before. -/
structure Kept (d : DirectMemory) : Prop where
  ordered : Ordered Prod.fst stopOf d.reservations
  below : ∀ e ∈ d.reservations, stopOf e ≤ d.nextOff
  inPool : d.nextOff ≤ directMemoryPoolSize

variable {d : DirectMemory} {start stop off len align : ℕ}

lemma wrap_of_lt {n : ℕ} (h : n < 2^64) : wrap n = n := Nat.mod_eq_of_lt h

lemma Kept.within (h : Kept d) : Within d := ⟨h.inPool,fun e he => (h.below e he).trans h.inPool⟩

lemma Within.stop_lt (h : Within d) {e : ℕ × ℕ} (he : e ∈ d.reservations) : e.1+e.2 < 2^64 :=
  (h.reservations e he).trans_lt (by decide)

lemma Within.wrap_stop (h : Within d) {e : ℕ × ℕ} (he : e ∈ d.reservations) :
    wrap (e.1+e.2) = stopOf e := wrap_of_lt (h.stop_lt he)

lemma Within.of_covering (h : Within d) {e : ℕ × ℕ} (hcover : d.covering off = some e) :
    e ∈ d.reservations ∧ off < stopOf e := by
  obtain ⟨hlast,hhi⟩ := Option.filter_eq_some_iff.mp hcover
  have he := (List.mem_filter.mp (List.mem_of_getLast? hlast)).1
  rw [h.wrap_stop he] at hhi
  exact ⟨he,of_decide_eq_true hhi⟩

/-- A release of an offset of the pool goes forward, and ends at a word when its pages do. -/
lemma Within.freeLen_pos (h : Within d) (hoff : off < directMemoryPoolSize)
    (hlen : off+nextMultipleOf len directMemoryPage < 2^64) :
    0 < d.freeLen off len ∧ off+d.freeLen off len < 2^64 := by
  have hwrap : wrap (nextMultipleOf len directMemoryPage) = nextMultipleOf len directMemoryPage :=
    wrap_of_lt (by omega)
  unfold freeLen
  rw [hwrap]
  split_ifs with hzero
  · cases hcover : d.covering off with
    | none =>
      rw [Option.map_none, Option.getD_none]
      unfold directMemoryPage directMemoryPoolSize at *
      omega
    | some e =>
      obtain ⟨he,hhi⟩ := h.of_covering hcover
      have hword := h.stop_lt he
      rw [Option.map_some, Option.getD_some, h.wrap_stop he]
      unfold stopOf at *
      omega
  · omega

/-- One step of a trim, over reservations that are in order: the entry is cut where it stands. -/
lemma trimReservation_eq {done todo : List (ℕ × ℕ)} {e : ℕ × ℕ}
    (hdone : ∀ x ∈ done, stopOf x ≤ e.1 ∧ x.1 < stopOf x) (htodo : ∀ x ∈ todo, stopOf e ≤ x.1)
    (hne : e.1 < stopOf e) (hword : stopOf e < 2^64)
    (hmeet : e.1 < stop ∧ start < stopOf e) : trimReservation start stop (done++e :: todo) e =
      done++Intervals.cut Prod.fst stopOf between start stop e++todo := by
  have hdone' : ∀ x ∈ done, x.1 < e.1 := fun x hx => (hdone x hx).2.trans_le (hdone x hx).1
  have hremoved : (done++e :: todo).filter (fun entry => entry.1 ≠ e.1) = done++todo := by
    rw [List.filter_append, List.filter_cons_of_neg (by simp),
      List.filter_eq_self.mpr fun x hx => decide_eq_true (hdone' x hx).ne,
      List.filter_eq_self.mpr fun x hx => decide_eq_true (hne.trans_le (htodo x hx)).ne']
  have hre : wrap (e.1+e.2) = stopOf e := wrap_of_lt hword
  have hafter : ∀ x ∈ todo, e.1 < x.1 := fun x hx => hne.trans_le (htodo x hx)
  have hbefore : ∀ x ∈ done, x.1 < stop := fun x hx => (hdone' x hx).trans hmeet.1
  unfold trimReservation Intervals.cut
  dsimp only
  rw [hremoved, hre, if_pos hmeet]
  split_ifs with htail hhead hhead
  · rw [insertKey_split hdone' hafter, ← List.singleton_append, ← List.append_assoc,
      insertKey_split _ fun x hx => htail.trans_le (htodo x hx)]
    · simp [between, stopOf]
    · simp only [List.mem_append, List.mem_singleton]
      rintro x (hx | rfl)
      · exact hbefore x hx
      · exact hmeet.1
  · rw [insertKey_split hbefore fun x hx => htail.trans_le (htodo x hx)]
    simp [between]
  · rw [insertKey_split hdone' hafter]
    simp [between]
  · simp

/-- A trim cuts every reservation. -/
lemma trim_foldl (l done : List (ℕ × ℕ)) (hl : Ordered Prod.fst stopOf l)
    (hword : ∀ e ∈ l, stopOf e < 2^64) (hlt : start < stop)
    (hdone : ∀ x ∈ done, x.1 < stopOf x ∧ ∀ e ∈ l, stopOf x ≤ e.1) :
    (l.filter fun e => e.1 < stop ∧ start < wrap (e.1+e.2)).foldl (trimReservation start stop)
      (done++l) = done++l.flatMap (Intervals.cut Prod.fst stopOf between start stop) := by
  induction l generalizing done with
  | nil => rfl
  | cons e l ih =>
    obtain ⟨hne,happ⟩ := hl
    obtain ⟨hafter,happ⟩ := List.pairwise_cons.mp happ
    have hle := hne e List.mem_cons_self
    have hre : wrap (e.1+e.2) = stopOf e := wrap_of_lt (hword e List.mem_cons_self)
    have hrest := ih (done++Intervals.cut Prod.fst stopOf between start stop e)
      ⟨fun x hx => hne x (List.mem_cons_of_mem _ hx),happ⟩
      (fun x hx => hword x (List.mem_cons_of_mem _ hx)) (by
        intro x hx
        rcases List.mem_append.mp hx with hx | hx
        · exact ⟨(hdone x hx).1,fun y hy => (hdone x hx).2 y (List.mem_cons_of_mem _ hy)⟩
        · obtain ⟨-,hxne,hxe⟩ := (makes_between.cut_within hle hlt).1 x hx
          exact ⟨hxne,fun y hy => hxe.trans (hafter y hy)⟩)
    rw [List.flatMap_cons, ← List.append_assoc, ← hrest, List.filter_cons]
    simp only [hre]
    split_ifs with hmeet
    · rw [List.foldl_cons, trimReservation_eq _ hafter hle (hword e List.mem_cons_self)
        (by simpa using hmeet)]
      exact fun x hx => ⟨(hdone x hx).2 e List.mem_cons_self,(hdone x hx).1⟩
    · have hcut : Intervals.cut Prod.fst stopOf between start stop e = [e] :=
        if_neg (by simpa using hmeet)
      rw [hcut, List.append_assoc, List.singleton_append]

lemma Kept.trimReservations_eq (h : Kept d) (hlt : start < stop) : d.trimReservations start stop =
    { d with reservations :=
      d.reservations.flatMap (Intervals.cut Prod.fst stopOf between start stop) } := by
  have hword : ∀ e ∈ d.reservations, stopOf e < 2^64 := fun e he => h.within.stop_lt he
  have htrim := trim_foldl d.reservations [] h.ordered hword hlt (by simp)
  rw [List.nil_append, List.nil_append] at htrim
  rw [trimReservations, htrim]

lemma kept_empty : empty.Kept := ⟨⟨by simp [empty],List.Pairwise.nil⟩,by simp [empty],Nat.zero_le _⟩

lemma reservedLen_pos (len : ℕ) : 0 < reservedLen len := by
  have hle := le_nextMultipleOf (max len directMemoryPage) directMemoryPage
  unfold reservedLen directMemoryPage at *
  omega

/-- The cursor rounds up to any alignment without a wrap: it lies far below the end of the words, and
an alignment beyond it is a word itself. -/
lemma round_lt {n k : ℕ} (hn : n ≤ directMemoryPoolSize) (hk : k < 2^64) :
    nextMultipleOf n k < 2^64 := by
  unfold nextMultipleOf directMemoryPoolSize at *
  split_ifs with hdvd
  · omega
  · by_cases hlt : n < k
    · rw [Nat.mod_eq_of_lt hlt]
      omega
    · omega

lemma Kept.allocate_cases (h : Kept d) (len : ℕ) (halign : align < 2^64) :
    d.allocate len align = (d,none) ∨ ∃ off, d.nextOff ≤ off ∧
      off+reservedLen len ≤ directMemoryPoolSize ∧ d.allocate len align =
        (⟨off+reservedLen len,d.reservations++[(off,reservedLen len)]⟩,some off) := by
  unfold allocate
  cases hlen : checkedNextMultipleOf (max len directMemoryPage) directMemoryPage with
  | none => exact .inl rfl
  | some size =>
    obtain ⟨-,rfl⟩ := checkedNextMultipleOf_eq_some.mp hlen
    have hoff : wrap (nextMultipleOf d.nextOff (max align directMemoryPage)) =
        nextMultipleOf d.nextOff (max align directMemoryPage) := by
      apply wrap_of_lt
      apply round_lt h.inPool
      unfold directMemoryPage
      omega
    dsimp only
    rw [hoff]
    split_ifs with hfits
    · have hle := le_nextMultipleOf d.nextOff (max align directMemoryPage)
      refine .inr ⟨_,hle,hfits.2,?_⟩
      have hlast : insertKey (nextMultipleOf d.nextOff (max align directMemoryPage)) (reservedLen len)
          (d.reservations++[]) = d.reservations++[_] :=
        insertKey_split (fun e he => (h.ordered.nonempty e he).trans_le ((h.below e he).trans hle))
          (by simp)
      rw [List.append_nil] at hlast
      rw [← hlast]
      rfl
    · exact .inl rfl

lemma Kept.allocate (h : Kept d) (len : ℕ) (halign : align < 2^64) :
    Kept (d.allocate len align).1 := by
  rcases h.allocate_cases len halign with hsame | ⟨off,hoff,hpool,hnew⟩
  · rwa [hsame]
  · obtain ⟨⟨hne,happ⟩,hbelow,-⟩ := h
    have hpos := reservedLen_pos len
    rw [hnew]
    refine ⟨⟨fun e he => ?_,List.pairwise_append.mpr ⟨happ,List.pairwise_singleton _ _,?_⟩⟩,
      fun e he => ?_,hpool⟩
    · rcases List.mem_append.mp he with he | he
      · exact hne e he
      · obtain rfl := List.mem_singleton.mp he
        exact Nat.lt_add_of_pos_right hpos
    · intro e he e' he'
      obtain rfl := List.mem_singleton.mp he'
      exact (hbelow e he).trans hoff
    · rcases List.mem_append.mp he with he | he
      · exact (hbelow e he).trans (hoff.trans (Nat.le_add_right _ _))
      · obtain rfl := List.mem_singleton.mp he
        exact le_refl _

lemma Kept.covering_eq_some (h : Kept d) {e : ℕ × ℕ} :
    d.covering off = some e ↔ e ∈ d.reservations ∧ e.1 ≤ off ∧ off < stopOf e := by
  rw [← h.ordered.lookup_iff, covering]
  have hword : ∀ e', (d.reservations.filter fun e => e.1 ≤ off).getLast? = some e' →
      wrap (e'.1+e'.2) = stopOf e' := by
    intro e' he'
    exact h.within.wrap_stop (List.mem_filter.mp (List.mem_of_getLast? he')).1
  cases hlast : (d.reservations.filter fun e => e.1 ≤ off).getLast? with
  | none => rfl
  | some e' =>
    rw [Option.filter_some, Option.filter_some, hword e' hlast]

/-- A release of length zero is one of the rest of the reservation. -/
theorem Kept.freeLen_zero (h : Kept d) {e : ℕ × ℕ} (he : e ∈ d.reservations) (hlo : e.1 ≤ off)
    (hhi : off < stopOf e) : off+d.freeLen off 0 = stopOf e := by
  have hzero : wrap (nextMultipleOf 0 directMemoryPage) = 0 := by decide
  rw [freeLen, if_pos hzero, h.covering_eq_some.mpr ⟨he,hlo,hhi⟩, Option.map_some,
    Option.getD_some, h.within.wrap_stop he]
  exact Nat.add_sub_of_le hhi.le

/-- Where a release of an offset of the pool ends. -/
def releaseStop (d : DirectMemory) (off len : ℕ) : ℕ := min (off+d.freeLen off len) directMemoryPoolSize

lemma Kept.releaseStop_gt (h : Kept d) (hoff : off < directMemoryPoolSize)
    (hlen : off+nextMultipleOf len directMemoryPage < 2^64) :
    off < d.releaseStop off len ∧ off+d.freeLen off len < 2^64 := by
  obtain ⟨hpos,hword⟩ := h.within.freeLen_pos hoff hlen
  exact ⟨lt_min (Nat.lt_add_of_pos_right hpos) hoff,hword⟩

/-- What a release takes back, and what is left. -/
lemma Kept.takeForRelease_eq (h : Kept d) (hoff : off < directMemoryPoolSize)
    (hlen : off+nextMultipleOf len directMemoryPage < 2^64) : d.takeForRelease off len =
      (⟨d.nextOff,d.reservations.flatMap
          (Intervals.cut Prod.fst stopOf between off (d.releaseStop off len))⟩,
        some (directMemoryPoolBase+off,d.releaseStop off len-off)) := by
  obtain ⟨hlt,hword⟩ := h.releaseStop_gt hoff hlen
  have hle : d.releaseStop off len ≤ directMemoryPoolSize := min_le_right _ _
  have hstop : min (wrap (off+d.freeLen off len)) directMemoryPoolSize = d.releaseStop off len := by
    rw [wrap_of_lt hword, releaseStop]
  have hva : physToVa off = directMemoryPoolBase+off := by
    apply wrap_of_lt
    unfold directMemoryPoolBase directMemoryPoolSize at *
    omega
  have hfreed : wrap (2^64+d.releaseStop off len-off) = d.releaseStop off len-off := by
    unfold wrap directMemoryPoolSize at *
    omega
  rw [takeForRelease, if_neg (not_le.mpr hoff)]
  dsimp only
  rw [hstop, hva, hfreed, h.trimReservations_eq hlt]

lemma Kept.takeForRelease (h : Kept d)
    (hlen : off+nextMultipleOf len directMemoryPage < 2^64) : Kept (d.takeForRelease off len).1 := by
  by_cases hoff : off < directMemoryPoolSize
  · obtain ⟨hlt,-⟩ := h.releaseStop_gt hoff hlen
    rw [h.takeForRelease_eq hoff hlen]
    refine ⟨(h.ordered.difference makes_between hlt).1,fun e he => ?_,h.inPool⟩
    obtain ⟨e',he',-,-,hle⟩ := makes_between.cut_flatMap_within h.ordered hlt he
    exact hle.trans (h.below e' he')
  · rwa [DirectMemory.takeForRelease, if_pos (not_lt.mp hoff)]

end DirectMemory

open DirectMemory

/-- The reservations are the bytes that are outstanding, and no range was handed out twice. Each
lies in one range that was, and starts where that does or behind a byte that is not reserved. -/
structure DirectRun.Accounted (s : DirectRun) : Prop where
  kept : s.memory.Kept
  reserved : ∀ x, Covers Prod.fst stopOf s.memory.reservations x ↔ Outstanding s.log x
  below : ∀ a ∈ handedOut s.log, a.1+a.2 ≤ s.memory.nextOff
  fresh : (handedOut s.log).Pairwise RangesApart
  owned : ∀ e ∈ s.memory.reservations, ∃ a ∈ handedOut s.log, a.1 ≤ e.1 ∧ stopOf e ≤ a.1+a.2
  apart : ∀ e ∈ s.memory.reservations, (∃ a ∈ handedOut s.log, a.1 = e.1) ∨
    ∃ y, e.1 = y+1 ∧ ¬Covers Prod.fst stopOf s.memory.reservations y

namespace DirectRun

variable {s s' : DirectRun}

lemma accounted_initial (h : Initial s) : s.Accounted := by
  obtain rfl := h
  exact ⟨kept_empty,by simp [Covers, empty, Outstanding],by simp [handedOut],
    List.Pairwise.nil,by simp [empty],by simp [empty]⟩

lemma Accounted.allocate (h : s.Accounted) (len : ℕ) {align : ℕ} (halign : align < 2^64) :
    (s.allocate len align).Accounted := by
  have hkept := h.kept.allocate len halign
  unfold DirectRun.allocate
  rcases h.kept.allocate_cases len halign with hsame | ⟨off,hoff,-,hnew⟩
  · rwa [hsame]
  · rw [hnew] at hkept ⊢
    refine ⟨hkept,fun x => ?_,?_,?_,fun e he => ?_,fun e he => ?_⟩
    · rw [Outstanding, ← h.reserved x, or_comm]
      simp [Covers, stopOf, or_and_right, exists_or]
    · intro a ha
      rcases List.mem_cons.mp ha with rfl | ha
      · exact le_refl _
      · exact (h.below a ha).trans (hoff.trans (Nat.le_add_right _ _))
    · exact List.pairwise_cons.mpr ⟨fun a ha => .inr ((h.below a ha).trans hoff),h.fresh⟩
    · rcases List.mem_append.mp he with he | he
      · obtain ⟨a,ha,hin⟩ := h.owned e he
        exact ⟨a,List.mem_cons_of_mem _ ha,hin⟩
      · obtain rfl := List.mem_singleton.mp he
        exact ⟨_,List.mem_cons_self,le_refl _,le_refl _⟩
    · rcases List.mem_append.mp he with he | he
      · rcases h.apart e he with ⟨a,ha,hstart⟩ | ⟨y,hy,hfree⟩
        · exact .inl ⟨a,List.mem_cons_of_mem _ ha,hstart⟩
        · refine .inr ⟨y,hy,?_⟩
          rintro ⟨e',he',hlo,hhi⟩
          rcases List.mem_append.mp he' with he' | he'
          · exact hfree ⟨e',he',hlo,hhi⟩
          · obtain rfl := List.mem_singleton.mp he'
            have hne := h.kept.ordered.nonempty e he
            have hbelow := h.kept.below e he
            dsimp only at hlo
            omega
      · obtain rfl := List.mem_singleton.mp he
        exact .inl ⟨_,List.mem_cons_self,rfl⟩

lemma Accounted.rangesApart (h : s.Accounted) {a b : ℕ × ℕ} (ha : a ∈ handedOut s.log)
    (hb : b ∈ handedOut s.log) (hne : a ≠ b) : RangesApart a b := by
  have hsymm : Std.Symm RangesApart := ⟨fun _ _ => Or.symm⟩
  exact h.fresh.forall ha hb hne

/-- A reservation reaches to the end of its allocation, or to a byte that is not reserved. -/
lemma Accounted.stop_of_covers (h : s.Accounted) {e a : ℕ × ℕ} (he : e ∈ s.memory.reservations)
    (ha : a ∈ handedOut s.log) (hlo : a.1 ≤ e.1) (hhi : stopOf e < a.1+a.2) :
    ¬Covers Prod.fst stopOf s.memory.reservations (stopOf e) := by
  rintro ⟨e',he',hlo',hhi'⟩
  have hne := h.kept.ordered.nonempty e he
  -- the next reservation would start right there
  have hstart : e'.1 = stopOf e := by
    by_contra hstart
    have hin : e'.1 ≤ stopOf e-1 ∧ stopOf e-1 < stopOf e' := by omega
    have hin' : e.1 ≤ stopOf e-1 ∧ stopOf e-1 < stopOf e := by omega
    obtain rfl := h.kept.ordered.eq_of_mem he he' hin' hin
    omega
  rcases h.apart e' he' with ⟨b,hb,hbstart⟩ | ⟨y,hy,hfree⟩
  · have hne' : a ≠ b := by
      rintro rfl
      omega
    have hapart := h.rangesApart ha hb hne'
    unfold RangesApart at hapart
    omega
  · exact hfree ⟨e,he,by omega,by omega⟩

/-- Of what is outstanding, a release takes back what it is asked to. -/
lemma Accounted.takesBack_iff (h : s.Accounted) {off len x : ℕ} (hx : Outstanding s.log x)
    (hlen : off+nextMultipleOf len directMemoryPage < 2^64) :
    TakesBack (Outstanding s.log) (handedOut s.log) off len x ↔
      off ≤ x ∧ x < s.memory.releaseStop off len := by
  have hpool : x < directMemoryPoolSize := by
    obtain ⟨e,he,-,hhi⟩ := (h.reserved x).mpr hx
    exact hhi.trans_le (h.kept.within.reservations e he)
  have hstop : x < s.memory.releaseStop off len ↔ x < off+s.memory.freeLen off len := by
    rw [releaseStop, lt_min_iff]
    exact and_iff_left hpool
  rw [hstop, TakesBack]
  refine and_congr_right fun hoff => ?_
  split_ifs with hzero
  · subst hzero
    by_cases hcover : Outstanding s.log off
    · obtain ⟨e,he,hlo,hhi⟩ := (h.reserved off).mpr hcover
      obtain ⟨a,ha,halo,hahi⟩ := h.owned e he
      rw [h.kept.freeLen_zero he hlo hhi]
      refine ⟨fun hback => ?_,fun hlt => ⟨fun _ => ⟨a,ha,halo.trans hlo,hlt.trans_le hahi,
        fun y hy hyx => (h.reserved y).mp ⟨e,he,hlo.trans hy,hyx.trans_lt hlt⟩⟩,
        fun hnot => absurd hcover hnot⟩⟩
      obtain ⟨b,hb,hblo,hbhi,hall⟩ := hback.1 hcover
      by_contra hge
      obtain rfl : a = b := by
        by_contra hne
        have hapart := h.rangesApart ha hb hne
        unfold RangesApart at hapart
        omega
      have hfree := h.stop_of_covers he ha halo (by omega)
      exact hfree ((h.reserved _).mpr (hall _ hhi.le (by omega)))
    · have hnone : s.memory.covering off = none := by
        refine Option.eq_none_iff_forall_ne_some.mpr fun e he => ?_
        exact hcover ((h.reserved off).mp ⟨e,h.kept.covering_eq_some.mp he⟩)
      have hpage : s.memory.freeLen off 0 = directMemoryPage := by
        rw [freeLen, if_pos (by decide), hnone]
        rfl
      rw [hpage]
      exact ⟨fun hback => hback.2 hcover,fun hlt => ⟨fun hnot => absurd hnot hcover,fun _ => hlt⟩⟩
  · have hle := le_nextMultipleOf len directMemoryPage
    have hwrap : wrap (nextMultipleOf len directMemoryPage) = nextMultipleOf len directMemoryPage :=
      wrap_of_lt (by omega)
    rw [freeLen, hwrap, if_neg (by omega)]

lemma Accounted.takeForRelease (h : s.Accounted) {off len : ℕ}
    (hlen : off+nextMultipleOf len directMemoryPage < 2^64) :
    (s.takeForRelease off len).Accounted := by
  have hkept := h.kept.takeForRelease hlen
  unfold DirectRun.takeForRelease
  by_cases hoff : off < directMemoryPoolSize
  · obtain ⟨hlt,-⟩ := h.kept.releaseStop_gt hoff hlen
    rw [h.kept.takeForRelease_eq hoff hlen] at hkept ⊢
    obtain ⟨-,hcovers⟩ := h.kept.ordered.difference makes_between hlt
    refine ⟨hkept,fun x => ?_,h.below,h.fresh,fun e he => ?_,fun e he => ?_⟩
    · rw [Outstanding, hcovers x, h.reserved x]
      exact and_congr_right fun hx => not_congr (h.takesBack_iff hx hlen).symm
    · obtain ⟨e',he',hlo,-,hhi⟩ := makes_between.cut_flatMap_within h.kept.ordered hlt he
      obtain ⟨a,ha,halo,hahi⟩ := h.owned e' he'
      exact ⟨a,ha,halo.trans hlo,hhi.trans hahi⟩
    · obtain ⟨e',he',hcut⟩ := List.mem_flatMap.mp he
      rcases makes_between.cut_start hcut with hsame | hstop
      · rcases h.apart e' he' with ⟨a,ha,hstart⟩ | ⟨y,hy,hfree⟩
        · exact .inl ⟨a,ha,hstart.trans hsame.symm⟩
        · exact .inr ⟨y,hsame.trans hy,fun hcover => hfree ((hcovers y).mp hcover).1⟩
      · refine .inr ⟨s.memory.releaseStop off len-1,by omega,fun hcover => ?_⟩
        exact ((hcovers _).mp hcover).2 ⟨by omega,by omega⟩
  · have hsame : s.memory.takeForRelease off len = (s.memory,none) := if_pos (not_lt.mp hoff)
    rw [hsame]
    refine ⟨h.kept,fun x => ?_,h.below,h.fresh,h.owned,h.apart⟩
    rw [Outstanding, h.reserved x]
    refine ⟨fun hx => ⟨hx,fun hback => ?_⟩,And.left⟩
    obtain ⟨e,he,-,hhi⟩ := (h.reserved x).mpr hx
    have hin := h.kept.within.reservations e he
    have hlo := hback.1
    omega

theorem reach_accounted (hs : Reach step Initial Careful s) : s.Accounted := by
  apply hs.invariant
  · exact fun s => accounted_initial
  · intro s call s' h hcareful hstep
    cases call with
    | allocate len align =>
      obtain rfl := Option.some.inj hstep
      exact h.allocate len.toNat align.toNat_lt
    | takeForRelease off len =>
      obtain rfl := Option.some.inj hstep
      exact h.takeForRelease hcareful

/-- The books of direct memory are exact: the reservations are apart and lie below the cursor, which
lies in the pool; they hold the bytes that were allocated and not released since; and no allocation
meets an earlier one. -/
theorem bookkeeping_exact (hs : Reach step Initial Careful s) :
    s.memory.reservations.Pairwise RangesApart ∧
      (∀ e ∈ s.memory.reservations, e.1+e.2 ≤ s.memory.nextOff) ∧
      s.memory.nextOff ≤ directMemoryPoolSize ∧
      (∀ x, (∃ e ∈ s.memory.reservations, e.1 ≤ x ∧ x < e.1+e.2) ↔ Outstanding s.log x) ∧
      (handedOut s.log).Pairwise RangesApart := by
  obtain ⟨⟨hordered,hbelow,hpool⟩,hreserved,-,hfresh,-,-⟩ := reach_accounted hs
  exact ⟨hordered.apart.imp Or.inl,hbelow,hpool,hreserved,hfresh⟩

/-- A reservation that is split in two, and one whose rest is released from its middle on. -/
def splitCalls : List DirectCall :=
  [.allocate 0x40000 0,.allocate 0x3000 0x100000,.takeForRelease 0x10000 0x10000,
    .takeForRelease 0x101000 0]

def splitRun : DirectRun :=
  ⟨⟨0x103000,[(0,0x10000),(0x20000,0x20000),(0x100000,0x1000)]⟩,
    [.released 0x101000 0,.released 0x10000 0x10000,.allocated 0x100000 0x3000,
      .allocated 0 0x40000]⟩

lemma splitRun_reached : Reach step Initial Careful splitRun := by
  have hexec : Transition.exec (Transition.guarded step Careful) ⟨.empty,[]⟩ splitCalls = some splitRun := by
    decide +kernel
  exact Reach.exec (.start rfl) hexec

theorem bookkeeping_exact_split :
    splitRun.memory.reservations.Pairwise RangesApart ∧
      (∀ e ∈ splitRun.memory.reservations, e.1+e.2 ≤ splitRun.memory.nextOff) ∧
      splitRun.memory.nextOff ≤ directMemoryPoolSize ∧
      (∀ x, (∃ e ∈ splitRun.memory.reservations, e.1 ≤ x ∧ x < e.1+e.2) ↔
        Outstanding splitRun.log x) ∧
      (handedOut splitRun.log).Pairwise RangesApart :=
  bookkeeping_exact splitRun_reached

end DirectRun

end Unemups4.Memory

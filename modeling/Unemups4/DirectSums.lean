import Unemups4.DirectMemory

/-! The arithmetic of the direct-memory calls on any arguments of a guest, and what a query of the
free run promises to the allocation after it. Some sums are checked and are not listed here; those
that are listed wrap in a release build. -/
namespace Unemups4.Memory
open Transition (Reach)
open Words

namespace DirectMemory

variable (d : DirectMemory)

/-- The free run of a window: offset and size. -/
def availableDirectMemory (searchStart searchEnd align : ℕ) : Option (ℕ × ℕ) :=
  match checkedNextMultipleOf (max searchStart d.nextOff) (max align directMemoryPage) with
  | none => none
  | some start =>
      let stop :=
        if searchEnd = 0 then directMemoryPoolSize else min searchEnd directMemoryPoolSize
      if start < directMemoryPoolSize ∧ start < stop then some (start,stop-start) else none

def allocateOps (len align : ℕ) : List Op :=
  match checkedNextMultipleOf (max len directMemoryPage) directMemoryPage with
  | none => []
  | some _ => [.round d.nextOff (max align directMemoryPage)]

def coveringOps (off : ℕ) : List Op :=
  match (d.reservations.filter fun e => e.1 ≤ off).getLast? with
  | none => []
  | some e => .add e.1 e.2 ::
      if off < wrap (e.1+e.2) then [.add e.1 e.2,.sub (wrap (e.1+e.2)) off] else []

def trimOps (start stop : ℕ) (e : ℕ × ℕ) : List Op :=
  .add e.1 e.2 ::
    if start < wrap (e.1+e.2) then
      .add e.1 e.2 :: (if e.1 < start then [.sub start e.1] else [])++
        if stop < wrap (e.1+e.2) then [.sub (wrap (e.1+e.2)) stop] else []
    else []

def takeForReleaseOps (off len : ℕ) : List Op :=
  if directMemoryPoolSize ≤ off then []
  else
    let stop := min (wrap (off+d.freeLen off len)) directMemoryPoolSize
    .round len directMemoryPage ::
      (if wrap (nextMultipleOf len directMemoryPage) = 0 then d.coveringOps off else [])++
      .add off (d.freeLen off len) ::
      (d.reservations.filter fun e => e.1 < stop).flatMap (trimOps off stop)++
      [.add directMemoryPoolBase off,.sub stop off]

def availableOps (searchStart searchEnd align : ℕ) : List Op :=
  match checkedNextMultipleOf (max searchStart d.nextOff) (max align directMemoryPage) with
  | none => []
  | some start =>
      let stop :=
        if searchEnd = 0 then directMemoryPoolSize else min searchEnd directMemoryPoolSize
      if start < directMemoryPoolSize ∧ start < stop then [.sub stop start] else []

/-- The window ends before its first aligned offset, or the pages of the run fit the pool: where it
starts at a page, where the cursor is aligned to an offset before it, or where the window leaves the
pages that it starts in some room. -/
def Servable (searchStart searchEnd align : ℕ) : Prop :=
  let start := nextMultipleOf (max searchStart d.nextOff) (max align directMemoryPage)
  let stop := if searchEnd = 0 then directMemoryPoolSize else min searchEnd directMemoryPoolSize
  stop ≤ start ∨ directMemoryPage ∣ start ∨
    nextMultipleOf d.nextOff (max align directMemoryPage) < start ∨
    stop+(directMemoryPage-start%directMemoryPage) ≤ directMemoryPoolSize

section Bounds

variable {d : DirectMemory} {off len align start stop : ℕ}

lemma within_empty : empty.Within := ⟨Nat.zero_le _,by simp [empty]⟩

lemma within_insertKey {l : List (ℕ × ℕ)} {key value : ℕ} (hl : ∀ e ∈ l, stopOf e ≤ directMemoryPoolSize)
    (hnew : key+value ≤ directMemoryPoolSize) :
    ∀ e ∈ insertKey key value l, stopOf e ≤ directMemoryPoolSize := by
  intro e he
  rcases mem_insertKey.mp he with rfl | ⟨he,-⟩
  · exact hnew
  · exact hl e he

lemma Within.allocate (h : Within d) (len align : ℕ) : Within (d.allocate len align).1 := by
  unfold DirectMemory.allocate
  cases checkedNextMultipleOf (max len directMemoryPage) directMemoryPage with
  | none => exact h
  | some size =>
    dsimp only
    split_ifs with hfits
    · exact ⟨hfits.2,within_insertKey h.reservations hfits.2⟩
    · exact h

/-- What is left of a reservation ends where it ended or where the release starts. -/
lemma within_trimReservation {l : List (ℕ × ℕ)} {e : ℕ × ℕ}
    (hl : ∀ e ∈ l, stopOf e ≤ directMemoryPoolSize) (he : stopOf e ≤ directMemoryPoolSize)
    (hstart : start ≤ directMemoryPoolSize) :
    ∀ x ∈ trimReservation start stop l e, stopOf x ≤ directMemoryPoolSize := by
  have hre : wrap (e.1+e.2) = stopOf e := wrap_of_lt (he.trans_lt (by decide))
  have hremoved : ∀ x ∈ l.filter (fun entry => entry.1 ≠ e.1), stopOf x ≤ directMemoryPoolSize :=
    fun x hx => hl x (List.mem_filter.mp hx).1
  unfold trimReservation
  dsimp only
  rw [hre]
  split_ifs with htail hhead hhead
  · exact within_insertKey (within_insertKey hremoved (by omega)) (by omega)
  · exact within_insertKey hremoved (by omega)
  · exact within_insertKey hremoved (by omega)
  · exact hremoved

lemma Within.trimReservations (h : Within d) (hstart : start ≤ directMemoryPoolSize) :
    Within (d.trimReservations start stop) := by
  refine ⟨h.nextOff,?_⟩
  unfold DirectMemory.trimReservations
  dsimp only
  have hall : ∀ e ∈ d.reservations.filter (fun e => e.1 < stop ∧ start < wrap (e.1+e.2)),
      stopOf e ≤ directMemoryPoolSize := fun e he => h.reservations e (List.mem_filter.mp he).1
  generalize d.reservations.filter (fun e => e.1 < stop ∧ start < wrap (e.1+e.2)) = l at hall
  have hbase := h.reservations
  generalize d.reservations = state at hbase
  induction l generalizing state with
  | nil => exact hbase
  | cons e l ih =>
    obtain ⟨he,hl⟩ := List.forall_mem_cons.mp hall
    exact ih hl _ (within_trimReservation hbase he hstart)

lemma Within.takeForRelease (h : Within d) (off len : ℕ) : Within (d.takeForRelease off len).1 := by
  unfold DirectMemory.takeForRelease
  split_ifs with hoff
  · exact h
  · exact h.trimReservations (not_le.mp hoff).le

end Bounds

section Exactness

variable {d : DirectMemory} {off len align start stop searchStart searchEnd : ℕ}

lemma Within.allocateOps_exact (h : Within d) (len : ℕ) (halign : align < 2^64) :
    Exact (d.allocateOps len align) := by
  unfold allocateOps
  cases checkedNextMultipleOf (max len directMemoryPage) directMemoryPage with
  | none => exact exact_nil
  | some size =>
    have hround : nextMultipleOf d.nextOff (max align directMemoryPage) < 2^64 := by
      apply round_lt h.nextOff
      unfold directMemoryPage
      omega
    simpa [Op.Exact] using hround

lemma availableOps_exact (d : DirectMemory) (searchStart searchEnd align : ℕ) :
    Exact (d.availableOps searchStart searchEnd align) := by
  unfold availableOps
  cases checkedNextMultipleOf (max searchStart d.nextOff) (max align directMemoryPage) with
  | none => exact exact_nil
  | some start =>
    dsimp only
    generalize (if searchEnd = 0 then directMemoryPoolSize
      else min searchEnd directMemoryPoolSize) = stop
    split_ifs with hrun
    · simpa [Op.Exact] using hrun.2.le
    · exact exact_nil

lemma Within.coveringOps_exact (h : Within d) (off : ℕ) : Exact (d.coveringOps off) := by
  unfold coveringOps
  cases hlast : (d.reservations.filter fun e => e.1 ≤ off).getLast? with
  | none => exact exact_nil
  | some e =>
    have hadd : (Op.add e.1 e.2).Exact :=
      h.stop_lt (List.mem_filter.mp (List.mem_of_getLast? hlast)).1
    dsimp only
    split_ifs with hhi
    · have hsub : (Op.sub (wrap (e.1+e.2)) off).Exact := hhi.le
      simp [hadd, hsub]
    · simp [hadd]

lemma Within.trimOps_exact (h : Within d) {e : ℕ × ℕ} (he : e ∈ d.reservations) :
    Exact (trimOps start stop e) := by
  have hadd : (Op.add e.1 e.2).Exact := h.stop_lt he
  have hhead : e.1 < start → (Op.sub start e.1).Exact := le_of_lt
  have htail : stop < wrap (e.1+e.2) → (Op.sub (wrap (e.1+e.2)) stop).Exact := le_of_lt
  unfold trimOps
  split_ifs with hmeet hlo hhi hhi
  · simp [hadd, hhead hlo, htail hhi]
  · simp [hadd, hhead hlo]
  · simp [hadd, htail hhi]
  · simp [hadd]
  · simp [hadd]

/-- A release is exact for the offsets outside the pool, and else where its pages end at a word. -/
lemma Within.takeForReleaseOps_iff (h : Within d) : Exact (d.takeForReleaseOps off len) ↔
    directMemoryPoolSize ≤ off ∨ off+nextMultipleOf len directMemoryPage < 2^64 := by
  unfold takeForReleaseOps
  by_cases hoff : directMemoryPoolSize ≤ off
  · rw [if_pos hoff]
    exact ⟨fun _ => .inl hoff,fun _ => exact_nil⟩
  · have hpool := not_le.mp hoff
    rw [if_neg hoff]
    have hcovering : Exact (if wrap (nextMultipleOf len directMemoryPage) = 0 then d.coveringOps off
        else []) := by
      split_ifs
      · exact h.coveringOps_exact off
      · exact exact_nil
    have htrims : ∀ stop, Exact ((d.reservations.filter fun e => e.1 < stop).flatMap
        (trimOps off stop)) :=
      fun stop => exact_flatMap.mpr fun e he => h.trimOps_exact (List.mem_filter.mp he).1
    have hva : directMemoryPoolBase+off < 2^64 := by
      unfold directMemoryPoolBase directMemoryPoolSize at *
      omega
    simp only [exact_cons, exact_append, exact_nil, hcovering, htrims, true_and, and_true, Op.Exact,
      hva, hoff, false_or]
    constructor
    · -- a length of no pages ends where the reservation does
      rintro ⟨⟨hround,hend⟩,-⟩
      unfold freeLen at hend
      rw [wrap_of_lt hround] at hend
      unfold directMemoryPoolSize at hpool
      split_ifs at hend <;> omega
    · intro hlen
      obtain ⟨hpos,hword⟩ := h.freeLen_pos hpool hlen
      rw [wrap_of_lt hword]
      exact ⟨⟨by omega,hword⟩,le_min (by omega) hpool.le⟩

/-- An allocation of less than the pool is placed at the cursor, if its pages fit there. -/
lemma Within.allocate_isSome (h : Within d) (hlen : len ≤ directMemoryPoolSize)
    (halign : align < 2^64) : (d.allocate len align).2.isSome ↔
      nextMultipleOf d.nextOff (max align directMemoryPage)+reservedLen len ≤
        directMemoryPoolSize := by
  have hround : nextMultipleOf d.nextOff (max align directMemoryPage) < 2^64 := by
    apply round_lt h.nextOff
    unfold directMemoryPage
    omega
  have hpages : reservedLen len < 2^64 := by
    have hlt := nextMultipleOf_lt (max len directMemoryPage) (k := directMemoryPage) (by decide)
    unfold reservedLen directMemoryPage directMemoryPoolSize at *
    omega
  have hsize : checkedNextMultipleOf (max len directMemoryPage) directMemoryPage =
      some (reservedLen len) := checkedNextMultipleOf_eq_some.mpr ⟨hpages,rfl⟩
  unfold DirectMemory.allocate
  rw [hsize]
  dsimp only
  rw [wrap_of_lt hround]
  unfold directMemoryPoolSize
  split_ifs with hfits
  · exact ⟨fun _ => hfits.2,fun _ => rfl⟩
  · refine ⟨nofun,fun hle => absurd ⟨?_,hle⟩ hfits⟩
    omega

/-- The pages of a run that starts `r` bytes into a page. -/
lemma reservedLen_fits {start stop base : ℕ} (hrun : start < stop) (hpool : stop ≤ directMemoryPoolSize)
    (hbase : base ≤ start) (hgap : base < start → base+directMemoryPage ≤ start) :
    base+reservedLen (stop-start) ≤ directMemoryPoolSize ↔
      directMemoryPage ∣ start ∨ base < start ∨
        stop+(directMemoryPage-start%directMemoryPage) ≤ directMemoryPoolSize := by
  unfold reservedLen nextMultipleOf directMemoryPage directMemoryPoolSize at *
  rw [Nat.dvd_iff_mod_eq_zero]
  split_ifs with hmod
  · omega
  · omega

/-- The run that a query reports goes to the allocation after it, unless its pages leave the pool. -/
lemma Within.served_iff (h : Within d) (halign : align < 2^64) :
    (∀ start size, d.availableDirectMemory searchStart searchEnd align = some (start,size) →
      (d.allocate size align).2.isSome) ↔ d.Servable searchStart searchEnd align := by
  have hpos : 0 < max align directMemoryPage := lt_max_of_lt_right (by decide)
  unfold availableDirectMemory Servable
  dsimp only
  have hstop : (if searchEnd = 0 then directMemoryPoolSize
      else min searchEnd directMemoryPoolSize) ≤ directMemoryPoolSize := by
    split_ifs
    · exact le_refl _
    · exact min_le_right _ _
  generalize (if searchEnd = 0 then directMemoryPoolSize
    else min searchEnd directMemoryPoolSize) = stop at hstop
  generalize hstart : nextMultipleOf (max searchStart d.nextOff) (max align directMemoryPage) = start
  by_cases hrun : start < stop
  · have hpool := hrun.trans_le hstop
    have hword : start < 2^64 := hpool.trans_le (by decide)
    have hchecked : checkedNextMultipleOf (max searchStart d.nextOff) (max align directMemoryPage) =
        some start := checkedNextMultipleOf_eq_some.mpr ⟨hstart ▸ hword,hstart⟩
    have hbase : nextMultipleOf d.nextOff (max align directMemoryPage) ≤ start :=
      hstart ▸ nextMultipleOf_mono hpos (le_max_right _ _)
    have hgap : nextMultipleOf d.nextOff (max align directMemoryPage) < start →
        nextMultipleOf d.nextOff (max align directMemoryPage)+directMemoryPage ≤ start := by
      intro hlt
      have hstep := add_le_of_dvd_of_lt (dvd_nextMultipleOf d.nextOff hpos)
        (hstart ▸ dvd_nextMultipleOf (max searchStart d.nextOff) hpos) hlt
      exact (Nat.add_le_add_left (le_max_right _ _) _).trans hstep
    rw [hchecked]
    dsimp only
    rw [if_pos ⟨hpool,hrun⟩]
    simp only [Option.some.injEq, Prod.mk.injEq, and_imp, not_le.mpr hrun, false_or]
    rw [← reservedLen_fits hrun hstop hbase hgap, ← h.allocate_isSome (by omega) halign]
    constructor
    · exact fun hall => hall start (stop-start) rfl rfl
    · rintro hsome start' size rfl rfl
      exact hsome
  · refine ⟨fun _ => .inl (not_lt.mp hrun),fun _ start' size hsome => ?_⟩
    cases hchecked : checkedNextMultipleOf (max searchStart d.nextOff)
        (max align directMemoryPage) with
    | none =>
      rw [hchecked] at hsome
      cases hsome
    | some first =>
      obtain ⟨-,hfirst⟩ := checkedNextMultipleOf_eq_some.mp hchecked
      rw [hchecked, ← hfirst, hstart] at hsome
      dsimp only at hsome
      rw [if_neg fun hcon => hrun hcon.2] at hsome
      cases hsome

end Exactness

end DirectMemory

open DirectMemory

namespace DirectRun

variable {s : DirectRun}

/-- Whatever the arguments were, the cursor and the reservations lie in the pool. -/
theorem reach_within (hs : Reach step Initial (fun _ _ => True) s) : s.memory.Within := by
  apply hs.invariant
  · rintro s rfl
    exact within_empty
  · intro s call s' h _ hstep
    cases call with
    | allocate len align =>
      obtain rfl := Option.some.inj hstep
      exact h.allocate _ _
    | takeForRelease off len =>
      obtain rfl := Option.some.inj hstep
      exact h.takeForRelease _ _

/-- What a guest relies on: no sum of the three calls leaves the words, and the run that a query
reports can be allocated. -/
def Safe (d : DirectMemory) (off len align searchStart searchEnd : ℕ) : Prop :=
  Exact (d.allocateOps len align) ∧ Exact (d.takeForReleaseOps off len) ∧
    Exact (d.availableOps searchStart searchEnd align) ∧
    ∀ start size, d.availableDirectMemory searchStart searchEnd align = some (start,size) →
      (d.allocate size align).2.isSome

/-- Allocations and queries are exact on any arguments. A release of an offset of the pool is where
its pages end at a word; and a query is kept to unless the pages of its run leave the pool. -/
theorem safe_iff (hs : Reach step Initial (fun _ _ => True) s)
    (off len align searchStart searchEnd : UInt64) :
    Safe s.memory off.toNat len.toNat align.toNat searchStart.toNat searchEnd.toNat ↔
      (directMemoryPoolSize ≤ off.toNat ∨
        off.toNat+nextMultipleOf len.toNat directMemoryPage < 2^64) ∧
      s.memory.Servable searchStart.toNat searchEnd.toNat align.toNat := by
  have h := reach_within hs
  rw [Safe, h.takeForReleaseOps_iff, h.served_iff align.toNat_lt]
  simp only [h.allocateOps_exact len.toNat align.toNat_lt, availableOps_exact, true_and]

/-- After an allocation of a page. -/
def pageRun : DirectRun := ⟨⟨0x1000,[(0,0x1000)]⟩,[.allocated 0 0x1000]⟩

lemma pageRun_reached : Reach step Initial (fun _ _ => True) pageRun :=
  .step (l := .allocate 0x1000 0) (.start rfl) trivial (by decide +kernel)

/-- A release to the end of the words wraps in its rounding; and a query at an alignment of one page
and a half reports a run whose pages go beyond the pool. -/
theorem not_safe_any_arguments :
    (¬∀ s, Reach step Initial (fun _ _ => True) s → ∀ off len : UInt64,
      Exact (s.memory.takeForReleaseOps off.toNat len.toNat)) ∧
    ¬∀ s, Reach step Initial (fun _ _ => True) s → ∀ align searchStart searchEnd : UInt64,
      ∀ start size, s.memory.availableDirectMemory searchStart.toNat searchEnd.toNat align.toNat =
        some (start,size) → (s.memory.allocate size align.toNat).2.isSome := by
  constructor
  · intro h
    exact absurd (h _ (.start rfl) 0 (2^64-1)) (by decide +kernel)
  · intro h
    have hserved := h pageRun pageRun_reached 0x1800 0 0 0x1800 (directMemoryPoolSize-0x1800)
      (by decide +kernel)
    exact absurd hserved (by decide +kernel)

theorem safe_iff_page :
    Safe pageRun.memory 0 0x1000 0x1800 0 0 ↔
      (directMemoryPoolSize ≤ 0 ∨ 0+nextMultipleOf 0x1000 directMemoryPage < 2^64) ∧
      pageRun.memory.Servable 0 0 0x1800 :=
  safe_iff pageRun_reached 0 0x1000 0x1800 0 0

end DirectRun

end Unemups4.Memory

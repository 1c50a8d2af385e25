import Mathlib

/-! The opaque handles of the emulated libraries: a kind in the high bits, a number of its own below
it that is never given twice, and a set of those in use. -/
namespace Unemups4.Kernel

inductive HandleKind
  | pad | mouse | equeue | ajm | ngs2System | ngs2Rack | ngs2Voice
  deriving DecidableEq

namespace HandleKind

def tag : HandleKind → ℕ
  | pad => 1
  | mouse => 2
  | equeue => 3
  | ajm => 4
  | ngs2System => 5
  | ngs2Rack => 6
  | ngs2Voice => 7

def fromTag : ℕ → Option HandleKind
  | 1 => some pad
  | 2 => some mouse
  | 3 => some equeue
  | 4 => some ajm
  | 5 => some ngs2System
  | 6 => some ngs2Rack
  | 7 => some ngs2Voice
  | _ => none

lemma fromTag_tag (k : HandleKind) : fromTag k.tag = some k := by cases k <;> rfl

lemma tag_pos (k : HandleKind) : 0 < k.tag := by cases k <;> simp [tag]

lemma tag_le (k : HandleKind) : k.tag ≤ 7 := by cases k <;> simp [tag]

end HandleKind

def handleTagShift : ℕ := 24

@[irreducible] def handleIdMask : ℕ := 2^24-1

/-- A word as a signed one of 32 bits. -/
def asI32 (n : ℕ) : ℤ := Int.bmod n (2^32)

@[irreducible] def handleOf (k : HandleKind) (id : ℕ) : ℤ := asI32 (k.tag <<< handleTagShift ||| id)

def handleKind (handle : ℤ) : Option HandleKind :=
  if handle ≤ 0 then none else HandleKind.fromTag (handle.toNat >>> handleTagShift)

structure HandleTable where
  nextId : HandleKind → ℕ
  live : Finset ℤ

def HandleTable.empty : HandleTable := ⟨fun _ => 1,∅⟩

def handleAlloc (t : HandleTable) (k : HandleKind) : HandleTable × Option ℤ :=
  if handleIdMask < t.nextId k then (t,none)
  else
    (⟨Function.update t.nextId k (t.nextId k+1),insert (handleOf k (t.nextId k)) t.live⟩,
      some (handleOf k (t.nextId k)))

/-- The handle is of the kind asked for, where one is. -/
def IsKind (handle : ℤ) (kind : Option HandleKind) : Prop := ∀ k ∈ kind, handleKind handle = some k

instance (handle : ℤ) (kind : Option HandleKind) : Decidable (IsKind handle kind) :=
  inferInstanceAs (Decidable (∀ k ∈ kind, _))

def handleFree (t : HandleTable) (handle : ℤ) (kind : Option HandleKind) : HandleTable × Bool :=
  if IsKind handle kind then ({ t with live := t.live.erase handle },handle ∈ t.live) else (t,false)

def handleResolve (t : HandleTable) (handle : ℤ) (kind : Option HandleKind) : Bool :=
  IsKind handle kind ∧ handle ∈ t.live

inductive HandleCall
  | alloc (k : HandleKind)
  | free (handle : ℤ) (kind : Option HandleKind)
  | resolve (handle : ℤ) (kind : Option HandleKind)

inductive HandleAnswer
  | handle (h : Option ℤ)
  | ok (b : Bool)

/-- The table and what has been asked and answered, the oldest first. -/
structure HandleRun where
  table : HandleTable
  log : List (HandleCall × HandleAnswer)

def HandleRun.start : HandleRun := ⟨.empty,[]⟩

def HandleRun.step (s : HandleRun) : HandleCall → HandleRun
  | .alloc k => ⟨(handleAlloc s.table k).1,s.log ++ [(.alloc k,.handle (handleAlloc s.table k).2)]⟩
  | .free h kind =>
      ⟨(handleFree s.table h kind).1,s.log ++ [(.free h kind,.ok (handleFree s.table h kind).2)]⟩
  | .resolve h kind => ⟨s.table,s.log ++ [(.resolve h kind,.ok (handleResolve s.table h kind))]⟩

def HandleRun.run (s : HandleRun) (calls : List HandleCall) : HandleRun := calls.foldl step s

/-- The handle of a kind that a call was given. -/
def givenBy (k : HandleKind) : HandleCall × HandleAnswer → Option ℤ
  | (.alloc k',.handle (some h)) => if k' = k then some h else none
  | _ => none

/-- The handle that a call has freed. -/
def freedBy : HandleCall × HandleAnswer → Option ℤ
  | (.free h _,.ok true) => some h
  | _ => none

namespace HandleRun

def given (s : HandleRun) (k : HandleKind) : List ℤ := s.log.filterMap (givenBy k)

def freed (s : HandleRun) : List ℤ := s.log.filterMap freedBy

end HandleRun

section Handle

variable {k k' : HandleKind} {id id' : ℕ}

lemma asI32_of_lt {n : ℕ} (h : n < 134217728) : asI32 n = n := by
  have hpow : ((2^32 : ℕ) : ℤ) = 4294967296 := by norm_num
  have hlt : (n : ℤ) < 134217728 := by exact_mod_cast h
  unfold asI32
  rw [Int.bmod_def, hpow]
  omega

lemma lt_of_le_handleIdMask (h : id ≤ handleIdMask) : id < 2^24 := by
  unfold handleIdMask at h
  omega

lemma handleOf_eq (k : HandleKind) (h : id ≤ handleIdMask) : handleOf k id = (k.tag*2^24+id : ℕ) := by
  have htag := k.tag_le
  have hid := lt_of_le_handleIdMask h
  have hor : k.tag <<< handleTagShift ||| id = k.tag*2^24+id := by
    unfold handleTagShift
    rw [← Nat.shiftLeft_add_eq_or_of_lt hid, Nat.shiftLeft_eq]
  have hlt : k.tag*2^24+id < 134217728 := by omega
  unfold handleOf
  rw [hor]
  exact asI32_of_lt hlt

/-- A handle is a positive number that tells its kind. -/
lemma handleOf_spec (k : HandleKind) (h : id ≤ handleIdMask) :
    0 < handleOf k id ∧ handleOf k id < 2^31 ∧ handleKind (handleOf k id) = some k := by
  have hpos := k.tag_pos
  have hle := k.tag_le
  have hid := lt_of_le_handleIdMask h
  have hshift : (k.tag*2^24+id) >>> handleTagShift = k.tag := by
    rw [handleTagShift, Nat.shiftRight_eq_div_pow]
    omega
  rw [handleOf_eq k h, handleKind, if_neg (by omega), Int.toNat_natCast, hshift, k.fromTag_tag]
  exact ⟨by omega,by omega,rfl⟩

lemma handleOf_inj (h : id ≤ handleIdMask) (h' : id' ≤ handleIdMask)
    (heq : handleOf k id = handleOf k' id') : k = k' ∧ id = id' := by
  have hkind : some k = some k' := by
    rw [← (handleOf_spec k h).2.2, ← (handleOf_spec k' h').2.2, heq]
  obtain rfl : k = k' := by simpa using hkind
  rw [handleOf_eq k h, handleOf_eq k h'] at heq
  exact ⟨rfl,by omega⟩

end Handle

namespace HandleRun

/-- What the table holds is what the log says: the numbers of each kind in turn, those in use that
were given and not freed. -/
structure Held (s : HandleRun) : Prop where
  next : ∀ k, s.table.nextId k = (s.given k).length+1
  room : ∀ k, s.table.nextId k ≤ handleIdMask+1
  inTurn : ∀ k, s.given k = (List.range (s.given k).length).map fun i => handleOf k (i+1)
  live : ∀ h, h ∈ s.table.live ↔ (∃ k, h ∈ s.given k) ∧ h ∉ s.freed
  known : ∀ h ∈ s.freed, ∃ k, h ∈ s.given k

variable {s : HandleRun} {h : ℤ} {k : HandleKind}

lemma Held.mem_given (hs : s.Held) : h ∈ s.given k ↔
    ∃ id, 0 < id ∧ id < s.table.nextId k ∧ h = handleOf k id := by
  rw [hs.inTurn, List.mem_map, hs.next]
  constructor
  · rintro ⟨i,hi,rfl⟩
    exact ⟨i+1,by omega,by simpa using hi,rfl⟩
  · rintro ⟨id,hpos,hid,rfl⟩
    exact ⟨id-1,by simp; omega,by rw [Nat.sub_add_cancel hpos]⟩

lemma start_held : start.Held :=
  ⟨fun _ => rfl,fun _ => Nat.le_add_left 1 _,fun _ => rfl,
    fun h => by simp [start, HandleTable.empty, given],fun h hmem => by simp [start, freed] at hmem⟩

lemma given_log (s : HandleRun) (t : HandleTable) (e : HandleCall × HandleAnswer) (k : HandleKind) :
    (⟨t,s.log ++ [e]⟩ : HandleRun).given k = s.given k ++ (givenBy k e).toList := by
  cases hgiven : givenBy k e with
  | none => simp [given, hgiven]
  | some h => simp [given, hgiven]

lemma freed_log (s : HandleRun) (t : HandleTable) (e : HandleCall × HandleAnswer) :
    (⟨t,s.log ++ [e]⟩ : HandleRun).freed = s.freed ++ (freedBy e).toList := by
  cases hfreed : freedBy e with
  | none => simp [freed, hfreed]
  | some h => simp [freed, hfreed]

/-- An entry that neither gives nor frees changes nothing. -/
lemma Held.log (hs : s.Held) {e : HandleCall × HandleAnswer} (hgiven : ∀ k, givenBy k e = none)
    (hfreed : freedBy e = none) : (⟨s.table,s.log ++ [e]⟩ : HandleRun).Held := by
  have hsame : ∀ k, (⟨s.table,s.log ++ [e]⟩ : HandleRun).given k = s.given k := fun k => by
    rw [given_log, hgiven, Option.toList_none, List.append_nil]
  have hsame' : (⟨s.table,s.log ++ [e]⟩ : HandleRun).freed = s.freed := by
    rw [freed_log, hfreed, Option.toList_none, List.append_nil]
  refine ⟨?_,hs.room,?_,?_,?_⟩
  · simpa only [hsame] using hs.next
  · simpa only [hsame] using hs.inTurn
  · simpa only [hsame, hsame'] using hs.live
  · simpa only [hsame, hsame'] using hs.known

/-- The next number of a kind makes a handle that was never given. -/
lemma Held.next_not_given (hs : s.Held) (hid : s.table.nextId k ≤ handleIdMask) (k' : HandleKind) :
    handleOf k (s.table.nextId k) ∉ s.given k' := by
  intro hmem
  obtain ⟨id,-,hlt,heq⟩ := hs.mem_given.mp hmem
  have hroom := hs.room k'
  obtain ⟨rfl,rfl⟩ := handleOf_inj hid (by omega) heq
  omega

lemma given_alloc (s : HandleRun) (t : HandleTable) (k k' : HandleKind) (h : ℤ) :
    (⟨t,s.log ++ [(.alloc k,.handle (some h))]⟩ : HandleRun).given k' =
      if k = k' then s.given k' ++ [h] else s.given k' := by
  rw [given_log, givenBy]
  split_ifs with hkk
  · rw [Option.toList_some]
  · rw [Option.toList_none, List.append_nil]

lemma freed_alloc (s : HandleRun) (t : HandleTable) (k : HandleKind) (h : ℤ) :
    (⟨t,s.log ++ [(.alloc k,.handle (some h))]⟩ : HandleRun).freed = s.freed := by
  simp [freed_log, freedBy]

lemma exists_given_alloc (s : HandleRun) (t : HandleTable) (k : HandleKind) (h h' : ℤ) :
    (∃ k', h' ∈ (⟨t,s.log ++ [(.alloc k,.handle (some h))]⟩ : HandleRun).given k') ↔
      h' = h ∨ ∃ k', h' ∈ s.given k' := by
  simp only [given_alloc]
  constructor
  · rintro ⟨k',hk'⟩
    split_ifs at hk' with hkk
    · rw [List.mem_append, List.mem_singleton] at hk'
      exact hk'.symm.imp_right fun hk' => ⟨k',hk'⟩
    · exact .inr ⟨k',hk'⟩
  · rintro (rfl | ⟨k',hk'⟩)
    · exact ⟨k,by simp⟩
    · refine ⟨k',?_⟩
      split_ifs with hkk
      · exact List.mem_append_left _ hk'
      · exact hk'

lemma Held.alloc (hs : s.Held) (k : HandleKind) : (s.step (.alloc k)).Held := by
  rw [step]
  by_cases hfull : handleIdMask < s.table.nextId k
  · rw [handleAlloc, if_pos hfull]
    exact hs.log (fun _ => rfl) rfl
  · rw [handleAlloc, if_neg hfull]
    have hid : s.table.nextId k ≤ handleIdMask := not_lt.mp hfull
    refine ⟨fun k' => ?_,fun k' => ?_,fun k' => ?_,fun h => ?_,fun h hh => ?_⟩
    · rw [given_alloc]
      by_cases hkk : k = k'
      · subst hkk
        rw [if_pos rfl, List.length_append, List.length_singleton, ← hs.next k]
        exact Function.update_self _ _ _
      · rw [if_neg hkk, ← hs.next k']
        exact Function.update_of_ne (Ne.symm hkk) _ _
    · by_cases hkk : k = k'
      · subst hkk
        simpa using hid
      · simpa [Function.update_of_ne (Ne.symm hkk)] using hs.room k'
    · rw [given_alloc]
      by_cases hkk : k = k'
      · subst hkk
        rw [if_pos rfl, List.length_append, List.length_singleton, List.range_succ, List.map_append,
          ← hs.inTurn k, hs.next k]
        rfl
      · rw [if_neg hkk]
        exact hs.inTurn k'
    · rw [exists_given_alloc, freed_alloc, Finset.mem_insert, hs.live]
      constructor
      · rintro (rfl | ⟨hgiven,hnot⟩)
        · exact ⟨.inl rfl,fun hmem => (hs.known _ hmem).elim (hs.next_not_given hid)⟩
        · exact ⟨.inr hgiven,hnot⟩
      · rintro ⟨rfl | hgiven,hnot⟩
        · exact .inl rfl
        · exact .inr ⟨hgiven,hnot⟩
    · rw [freed_alloc] at hh
      exact (exists_given_alloc s _ k _ h).mpr (.inr (hs.known h hh))

lemma Held.free (hs : s.Held) (h : ℤ) (kind : Option HandleKind) : (s.step (.free h kind)).Held := by
  rw [step]
  by_cases hkind : IsKind h kind
  · rw [handleFree, if_pos hkind]
    by_cases hlive : h ∈ s.table.live
    · rw [decide_eq_true hlive]
      have hgiven (t : HandleTable) (k : HandleKind) :
          (⟨t,s.log ++ [(.free h kind,.ok true)]⟩ : HandleRun).given k = s.given k := by
        simp [given_log, givenBy]
      have hfreed (t : HandleTable) :
          (⟨t,s.log ++ [(.free h kind,.ok true)]⟩ : HandleRun).freed = s.freed ++ [h] := by
        simp [freed_log, freedBy]
      refine ⟨fun k => ?_,hs.room,fun k => ?_,fun h' => ?_,fun h' hh => ?_⟩
      · rw [hgiven]
        exact hs.next k
      · rw [hgiven]
        exact hs.inTurn k
      · rw [hfreed, Finset.mem_erase, hs.live]
        simp only [hgiven, List.mem_append, List.mem_singleton]
        tauto
      · simp only [hfreed, hgiven, List.mem_append, List.mem_singleton] at hh ⊢
        rcases hh with hh | rfl
        · exact hs.known h' hh
        · exact ((hs.live h').mp hlive).1
    · rw [decide_eq_false hlive, Finset.erase_eq_of_notMem hlive]
      exact hs.log (fun _ => rfl) rfl
  · rw [handleFree, if_neg hkind]
    exact hs.log (fun _ => rfl) rfl

theorem step_held (hs : s.Held) (c : HandleCall) : (s.step c).Held := by
  cases c with
  | alloc k => exact hs.alloc k
  | free h kind => exact hs.free h kind
  | resolve h kind => exact hs.log (fun _ => rfl) rfl

theorem run_held (hs : s.Held) (calls : List HandleCall) : (s.run calls).Held := by
  induction calls generalizing s with
  | nil => exact hs
  | cons c calls ih => exact ih (step_held hs c)

/-- After any calls: no handle was given twice, each is positive and tells its kind, the calls that
ask about one or free it say whether it was given and not freed since, and a kind runs out after as
many handles as its numbers allow. -/
theorem handles_exact (calls : List HandleCall) :
    let s := start.run calls
    (∀ k, (s.given k).Nodup) ∧
    (∀ k, ∀ h ∈ s.given k, 0 < h ∧ h < 2^31 ∧ handleKind h = some k) ∧
    (∀ h kind, (handleResolve s.table h kind = true ↔
      IsKind h kind ∧ (∃ k, h ∈ s.given k) ∧ h ∉ s.freed)) ∧
    (∀ h kind, ((handleFree s.table h kind).2 = true ↔
      IsKind h kind ∧ (∃ k, h ∈ s.given k) ∧ h ∉ s.freed)) ∧
    ∀ k, ((handleAlloc s.table k).2 = none ↔ (s.given k).length = handleIdMask) := by
  intro s
  have hs : s.Held := run_held start_held calls
  refine ⟨fun k => ?_,fun k h hh => ?_,fun h kind => ?_,fun h kind => ?_,fun k => ?_⟩
  · rw [hs.inTurn k]
    refine List.nodup_range.map_on fun i hi j hj heq => ?_
    have hnext := hs.next k
    have hroom := hs.room k
    rw [List.mem_range] at hi hj
    have hsucc := (handleOf_inj (by omega) (by omega) heq).2
    omega
  · obtain ⟨id,-,hlt,rfl⟩ := hs.mem_given.mp hh
    have hroom := hs.room k
    exact handleOf_spec k (by omega)
  · rw [handleResolve, decide_eq_true_iff, hs.live]
  · rw [handleFree, ← hs.live]
    split_ifs with hkind
    · simp [hkind]
    · simp [hkind]
  · have hnext := hs.next k
    have hroom := hs.room k
    rw [handleAlloc]
    split_ifs with hfull
    · exact ⟨fun _ => by omega,fun _ => rfl⟩
    · exact ⟨fun hnone => by simp at hnone,fun _ => by omega⟩

end HandleRun

end Unemups4.Kernel

import Unemups4.LoadFrame
import Unemups4.MapPlaces

/-! Reads and writes at addresses that the guest names. The whole arena is backed, so the range is
looked up in the table first: a walk goes from the region that holds an address to the one that holds
the address where it ends. -/
namespace Unemups4.Memory
open Transition (Reach)
open Intervals (Covers Ordered)

inductive RangeError where
  | overflow
  | unmapped
  | access
  deriving DecidableEq, Repr

namespace VmMemoryManager

variable (m : VmMemoryManager)

/-- The last region that starts at the address or below is the only one that can contain it. -/
def containingVma (addr : ℕ) : Option MemoryVma :=
  ((m.allocations.filter fun entry => entry.1 ≤ addr).getLast?.map Prod.snd).filter
    fun vma => vma.start ≤ addr ∧ addr < vma.stop

/-- `fuel` bounds the rounds of the walk; `none` tells that it is not over by then. -/
def rangeCheck (fuel addr size : ℕ) : Option (Except RangeError Unit) :=
  if 2^64 ≤ addr+size then some (.error .overflow)
  else
    match Intervals.walk MemoryVma.stop m.containingVma (addr+size) fuel addr with
    | none => none
    | some false => some (.error .unmapped)
    | some true => some (.ok ())

/-- The arena is read over what it held before the stores. -/
def readBytes (contents : ℕ → UInt8) (addr size : ℕ) : Except RangeError (List UInt8) :=
  if guestBase ≤ addr ∧ addr+size ≤ m.vm.span then
    .ok ((List.range size).map fun i => byteAt contents m.stores (addr+i))
  else .error .access

def readBytesRanged (contents : ℕ → UInt8) (fuel addr size : ℕ) :
    Option (Except RangeError (List UInt8)) :=
  if size = 0 then some (.ok [])
  else
    match m.rangeCheck fuel addr size with
    | none => none
    | some (.error e) => some (.error e)
    | some (.ok ()) => some (m.readBytes contents addr size)

def writeBytes (addr : ℕ) (data : List UInt8) : VmMemoryManager × Except RangeError Unit :=
  if m.vm.accepts addr data.length then ({ m with stores := .write addr data :: m.stores },.ok ())
  else (m,.error .access)

def writeBytesRanged (fuel addr : ℕ) (data : List UInt8) :
    Option (VmMemoryManager × Except RangeError Unit) :=
  if data = [] then some (m,.ok ())
  else
    match m.rangeCheck fuel addr data.length with
    | none => none
    | some (.error e) => some (m,.error e)
    | some (.ok ()) => some (m.writeBytes addr data)

end VmMemoryManager

open VmMemoryManager

/-- An access went past the check of its range. -/
def Passed {α : Type*} (r : Except RangeError α) : Prop :=
  r ≠ .error .overflow ∧ r ≠ .error .unmapped

/-- The range lies in the address space, and each of its bytes in some region. -/
def Spanned (m : VmMemoryManager) (addr size : ℕ) : Prop :=
  addr+size < 2^64 ∧ ∀ a, addr ≤ a → a < addr+size → Mapped m a

section Check

variable {m : VmMemoryManager} {addr size fuel : ℕ}

lemma Laid.containingVma_eq_some (h : Laid m) {vma : MemoryVma} : m.containingVma addr = some vma ↔
    vma ∈ m.allocations.map Prod.snd ∧ vma.start ≤ addr ∧ addr < vma.stop := by
  unfold containingVma
  constructor
  · intro hfind
    obtain ⟨hlast,hin⟩ := Option.filter_eq_some_iff.mp hfind
    obtain ⟨entry,hentry,rfl⟩ := Option.map_eq_some_iff.mp hlast
    have hmem := (List.mem_filter.mp (List.mem_of_getLast? hentry)).1
    exact ⟨List.mem_map_of_mem hmem,of_decide_eq_true hin⟩
  · rintro ⟨hmem,hstart,hstop⟩
    obtain ⟨entry,he,rfl⟩ := List.mem_map.mp hmem
    rw [← h.keyed entry he] at hstart
    rw [h.ordered.getLast?_filter he hstart hstop, Option.map_some, Option.filter_eq_some_iff]
    exact ⟨rfl,by simp [← h.keyed entry he, hstart, hstop]⟩

lemma covers_iff_mapped {a : ℕ} :
    Covers MemoryVma.start MemoryVma.stop (m.allocations.map Prod.snd) a ↔ Mapped m a := by
  constructor
  · rintro ⟨vma,hvma,hin⟩
    obtain ⟨entry,he,rfl⟩ := List.mem_map.mp hvma
    exact ⟨entry,he,hin⟩
  · rintro ⟨entry,he,hin⟩
    exact ⟨entry.2,List.mem_map_of_mem he,hin⟩

/-- The check is over after a round for each region and one more, and passes when no byte of the
range lies in a gap. -/
lemma Laid.rangeCheck_iff (h : Laid m) (addr size : ℕ) (hfuel : m.allocations.length < fuel) :
    ∃ r, m.rangeCheck fuel addr size = some r ∧ r ≠ .error .access ∧
      (r = .ok () ↔ Spanned m addr size) := by
  unfold rangeCheck Spanned
  split_ifs with hover
  · exact ⟨_,rfl,nofun,nofun,fun hcon => absurd hcon.1 (not_lt.mpr hover)⟩
  · have hrounds : ((m.allocations.map Prod.snd).filter fun vma => addr < vma.stop).length < fuel := by
      refine (List.length_filter_le _ _).trans_lt ?_
      rwa [List.length_map]
    have hholder : ∀ x vma, m.containingVma x = some vma ↔
        vma ∈ m.allocations.map Prod.snd ∧ vma.start ≤ x ∧ x < vma.stop :=
      fun _ _ => h.containingVma_eq_some
    obtain ⟨b,hwalk,hiff⟩ : ∃ b, Intervals.walk MemoryVma.stop m.containingVma (addr+size) fuel addr =
        some b ∧ (b = true ↔ ∀ a, addr ≤ a → a < addr+size → Covers MemoryVma.start MemoryVma.stop
          (m.allocations.map Prod.snd) a) := Intervals.walk_iff hholder hrounds
    simp only [covers_iff_mapped] at hiff
    rw [hwalk, ← hiff]
    cases b with
    | false => exact ⟨_,rfl,nofun,nofun,fun hcon => absurd hcon.2 Bool.false_ne_true⟩
    | true => exact ⟨_,rfl,nofun,fun _ => ⟨not_le.mp hover,rfl⟩,fun _ => rfl⟩

end Check

lemma passed_ok {α : Type*} {x : α} : Passed (.ok x : Except RangeError α) := ⟨nofun,nofun⟩

lemma not_passed {α : Type*} {e : RangeError} (h : e ≠ .access) :
    ¬Passed (.error e : Except RangeError α) := by
  rintro ⟨hover,hunmapped⟩
  cases e with
  | overflow => exact hover rfl
  | unmapped => exact hunmapped rfl
  | access => exact h rfl

section Passed

variable {m : VmMemoryManager} {addr size fuel : ℕ}

/-- A read passes exactly on mapped memory, and what passes is read where the arena holds it. -/
lemma Laid.readBytesRanged_passed (h : Laid m) (contents : ℕ → UInt8) (size : ℕ) (hword : addr < 2^64)
    (hfuel : m.allocations.length < fuel) :
    ∃ r, m.readBytesRanged contents fuel addr size = some r ∧ (Passed r ↔ Spanned m addr size) ∧
      (Passed r → size = 0 ∨ (guestBase ≤ addr ∧ addr+size ≤ m.vm.span) → ∃ bytes, r = .ok bytes) := by
  unfold readBytesRanged
  split_ifs with hzero
  · rw [hzero]
    exact ⟨_,rfl,⟨fun _ => ⟨hword,by omega⟩,fun _ => passed_ok⟩,fun _ _ => ⟨[],rfl⟩⟩
  · obtain ⟨r,hcheck,hkind,hiff⟩ := h.rangeCheck_iff addr size hfuel
    rw [hcheck, ← hiff]
    cases r with
    | error e =>
      have hnot := not_passed (α := List UInt8) fun he => hkind (he ▸ rfl)
      exact ⟨_,rfl,⟨fun hcon => absurd hcon hnot,nofun⟩,fun hcon => absurd hcon hnot⟩
    | ok u =>
      refine ⟨_,rfl,⟨fun _ => rfl,fun _ => ?_⟩,fun _ hin => ?_⟩
      · unfold readBytes
        split_ifs
        · exact passed_ok
        · exact ⟨nofun,nofun⟩
      · rcases hin with hin | hin
        · exact absurd hin hzero
        · exact ⟨_,if_pos hin⟩

lemma Laid.writeBytesRanged_passed (h : Laid m) (data : List UInt8) (hword : addr < 2^64)
    (hfuel : m.allocations.length < fuel) :
    ∃ r, m.writeBytesRanged fuel addr data = some r ∧ (Passed r.2 ↔ Spanned m addr data.length) := by
  unfold writeBytesRanged
  split_ifs with hzero
  · rw [hzero]
    exact ⟨_,rfl,fun _ => ⟨hword,fun a hlo hhi => absurd hhi (not_lt.mpr hlo)⟩,fun _ => passed_ok⟩
  · obtain ⟨r,hcheck,hkind,hiff⟩ := h.rangeCheck_iff addr data.length hfuel
    rw [hcheck, ← hiff]
    cases r with
    | error e => exact ⟨_,rfl,fun hcon => absurd hcon (not_passed fun he => hkind (he ▸ rfl)),nofun⟩
    | ok u =>
      refine ⟨_,rfl,fun _ => rfl,fun _ => ?_⟩
      unfold VmMemoryManager.writeBytes
      split_ifs
      · exact passed_ok
      · exact ⟨nofun,nofun⟩

end Passed

/-- Ranged access passes exactly on mapped memory, and its walk is over after at most a round for
each region and one more. -/
theorem TableRun.passed_iff_spanned {vm : GuestVm} {s : TableRun}
    (hs : Reach step (Initial vm) (fun _ _ => True) s) (contents : ℕ → UInt8) (addr size : UInt64)
    (data : List UInt8) {fuel : ℕ} (hfuel : s.manager.allocations.length < fuel) :
    (∃ r, s.manager.readBytesRanged contents fuel addr.toNat size.toNat = some r ∧
      (Passed r ↔ Spanned s.manager addr.toNat size.toNat)) ∧
    ∃ r, s.manager.writeBytesRanged fuel addr.toNat data = some r ∧
      (Passed r.2 ↔ Spanned s.manager addr.toNat data.length) := by
  have h := reach_laid hs
  obtain ⟨r,hread,hiff,-⟩ :=
    h.readBytesRanged_passed contents size.toNat addr.toNat_lt hfuel
  exact ⟨⟨r,hread,hiff⟩,h.writeBytesRanged_passed data addr.toNat_lt hfuel⟩

/-- The last bytes of the gadget page, and those past it. -/
theorem TableRun.passed_iff_spanned_gadget :
    (∃ r, (new defaultVm).readBytesRanged (fun _ => 0) 2 0x30ff0 0x10 = some r ∧
      (Passed r ↔ Spanned (new defaultVm) 0x30ff0 0x10)) ∧
    ∃ r, (new defaultVm).writeBytesRanged 2 0x30ff0 (List.replicate 0x20 0) = some r ∧
      (Passed r.2 ↔ Spanned (new defaultVm) 0x30ff0 0x20) :=
  TableRun.passed_iff_spanned (s := ⟨new defaultVm,[]⟩) (.start rfl) (fun _ => 0) 0x30ff0 0x10
    (List.replicate 0x20 0) (by decide)

end Unemups4.Memory

import Unemups4.FileCalls
import Unemups4.RangedAccess
import Unemups4.SceDynamic

/-! Strings that the guest hands over by address. They are read in windows that shrink at the end of
what is mapped, and the outcome does not depend on where the windows end. -/
namespace Unemups4.Files
open Loader (fromUtf8Lossy)
open Memory (Mapped Spanned Laid byteAt guestBase VmMemoryManager)

namespace Host

variable {κ : Type} (host : Host κ)

/-- `none` tells that the scan is not over after so many rounds. -/
def readCstrText (rounds : ℕ) (w : World κ) (addr max : ℕ) : Option (Option String) :=
  if addr = 0 ∨ max = 0 then some none
  else if host.rangeInArena addr 1 then
    match host.boundedRead with
    | none => some none
    | some read => (scanRounds (read w) addr max rounds []).map (Option.map fromUtf8Lossy)
  else some none

end Host

open Host

/-- The bytes stand in mapped memory, from the address on. -/
def Holds (mapped : ℕ → Option UInt8) (addr : ℕ) (bytes : List UInt8) : Prop :=
  ∀ i b, bytes[i]? = some b → mapped (addr+i) = some b

/-- A ranged read succeeds exactly when all its bytes are mapped. The end of a range is an address, so
the topmost byte of the address space is in none. -/
structure Exact (mapped : ℕ → Option UInt8) (read : (addr size : ℕ) → Option (List UInt8)) : Prop where
  ends : ∀ a b, mapped a = some b → a+1 < 2^64
  reads : ∀ addr size bytes, read addr size = some bytes ↔
    bytes.length = size ∧ Holds mapped addr bytes

/-- A string with its end among the first `max` bytes. -/
structure CstrAt (mapped : ℕ → Option UInt8) (addr max : ℕ) (bytes : List UInt8) : Prop where
  short : bytes.length < max
  nonzero : (0 : UInt8) ∉ bytes
  held : Holds mapped addr bytes
  ended : mapped (addr+bytes.length) = some 0

section Held

variable {mapped : ℕ → Option UInt8} {addr max : ℕ} {as bs out bytes : List UInt8}

lemma holds_nil : Holds mapped addr [] := by simp [Holds]

lemma holds_append : Holds mapped addr (as ++ bs) ↔
    Holds mapped addr as ∧ Holds mapped (addr+as.length) bs := by
  constructor
  · intro h
    constructor
    · intro i b hb
      have hi : i < as.length := (List.getElem?_eq_some_iff.mp hb).1
      exact h i b (by rwa [List.getElem?_append_left hi])
    · intro i b hb
      rw [Nat.add_assoc]
      exact h (as.length+i) b (by simpa [List.getElem?_append_right] using hb)
  · rintro ⟨hfirst,hrest⟩ i b hb
    by_cases hi : i < as.length
    · exact hfirst i b (by rwa [List.getElem?_append_left hi] at hb)
    · rw [List.getElem?_append_right (not_lt.mp hi)] at hb
      have hat := hrest (i-as.length) b hb
      rwa [Nat.add_assoc, Nat.add_sub_cancel' (not_lt.mp hi)] at hat

lemma holds_singleton {b : UInt8} : Holds mapped addr [b] ↔ mapped addr = some b := by
  constructor
  · intro h
    exact h 0 b rfl
  · intro h i c hc
    obtain ⟨hi,rfl⟩ := List.getElem?_eq_some_iff.mp hc
    obtain rfl : i = 0 := by simpa using hi
    exact h

/-- What was read without a zero is a part of the string. -/
lemma CstrAt.length_le (h : CstrAt mapped addr max bytes) (hheld : Holds mapped addr out)
    (hzero : (0 : UInt8) ∉ out) : out.length ≤ bytes.length := by
  by_contra hlt
  have hget := List.getElem?_eq_getElem (not_le.mp hlt)
  have hend := h.ended.symm.trans (hheld _ _ hget)
  rw [Option.some.injEq] at hend
  exact hzero (hend ▸ List.getElem_mem _)

/-- An address has one string. -/
lemma CstrAt.unique (h : CstrAt mapped addr max as) (h' : CstrAt mapped addr max bs) : as = bs := by
  have hlen : as.length = bs.length :=
    le_antisymm (h'.length_le h.held h.nonzero) (h.length_le h'.held h'.nonzero)
  refine List.ext_getElem hlen fun i hi hi' => ?_
  have hsame := (h.held i _ (List.getElem?_eq_getElem hi)).symm.trans
    (h'.held i _ (List.getElem?_eq_getElem hi'))
  exact Option.some.inj hsame

/-- A string reaches past what was read of it. -/
lemma CstrAt.mapped_next (h : CstrAt mapped addr max bytes) (hheld : Holds mapped addr out)
    (hzero : (0 : UInt8) ∉ out) : mapped (addr+out.length) ≠ none := by
  rcases (h.length_le hheld hzero).lt_or_eq with hlt | heq
  · simp [h.held _ _ (List.getElem?_eq_getElem hlt)]
  · simp [heq, h.ended]

lemma takeWhile_zero (h : (0 : UInt8) ∈ bs) : ∃ rest, bs = bs.takeWhile (· ≠ 0) ++ 0 :: rest := by
  induction bs with
  | nil => simp at h
  | cons b bs ih =>
    by_cases hb : b = 0
    · exact ⟨bs,by simp [hb]⟩
    · obtain ⟨rest,hrest⟩ := ih ((List.mem_cons.mp h).resolve_left (Ne.symm hb))
      refine ⟨rest,?_⟩
      rw [List.takeWhile_cons_of_pos (by simpa using hb), List.cons_append, ← hrest]

lemma zero_notMem_takeWhile : (0 : UInt8) ∉ bs.takeWhile (· ≠ 0) :=
  fun h => by simpa using List.mem_takeWhile_imp h

end Held

section Scan

variable {mapped : ℕ → Option UInt8} {read : (addr size : ℕ) → Option (List UInt8)}
  {addr max rounds chunk : ℕ} {out bytes : List UInt8}

lemma Exact.readWindow_some (h : Exact mapped read) (hread : readWindow (read addr) chunk = some bytes) :
    0 < bytes.length ∧ bytes.length ≤ chunk ∧ Holds mapped addr bytes := by
  induction chunk using Nat.strong_induction_on with
  | _ chunk ih =>
    unfold readWindow at hread
    split_ifs at hread with hzero
    split at hread
    · rename_i bs heq
      obtain rfl := Option.some.inj hread
      obtain ⟨hlen,hheld⟩ := (h.reads _ _ _).mp heq
      exact ⟨by omega,hlen.le,hheld⟩
    · obtain ⟨hpos,hle,hheld⟩ := ih (chunk/2) (by omega) hread
      exact ⟨hpos,by omega,hheld⟩

/-- The last window to be tried is a single byte. -/
lemma Exact.readWindow_none (h : Exact mapped read) (hpos : 0 < chunk)
    (hread : readWindow (read addr) chunk = none) : mapped addr = none := by
  induction chunk using Nat.strong_induction_on with
  | _ chunk ih =>
    unfold readWindow at hread
    rw [if_neg hpos.ne'] at hread
    split at hread
    · cases hread
    · rename_i hfail
      by_cases hone : chunk = 1
      · cases hbyte : mapped addr with
        | none => rfl
        | some b =>
          have hsome := (h.reads addr 1 [b]).mpr ⟨rfl,holds_singleton.mpr hbyte⟩
          rw [← hone, hfail] at hsome
          cases hsome
      · exact ih (chunk/2) (by omega) (by omega) hread

lemma Exact.lt_of_holds (h : Exact mapped read) (haddr : addr < 2^64) (hheld : Holds mapped addr out) :
    addr+out.length < 2^64 := by
  rcases List.eq_nil_or_concat out with rfl | ⟨init,b,rfl⟩
  · simpa using haddr
  · have hlast := h.ends (addr+init.length) b (hheld init.length b (by simp))
    simpa [Nat.add_assoc] using hlast

/-- A zero in the window ends the string. -/
lemma cstrAt_window {window : List UInt8} (hheld : Holds mapped addr out) (hzero : (0 : UInt8) ∉ out)
    (hnext : Holds mapped (addr+out.length) window) (hmem : (0 : UInt8) ∈ window)
    (hle : out.length+window.length ≤ max) :
    CstrAt mapped addr max (out ++ window.takeWhile (· ≠ 0)) := by
  obtain ⟨rest,hrest⟩ := takeWhile_zero hmem
  have hlen := congrArg List.length hrest
  rw [hrest, holds_append] at hnext
  rw [List.length_append, List.length_cons] at hlen
  constructor
  · rw [List.length_append]
    omega
  · rw [List.mem_append, not_or]
    exact ⟨hzero,zero_notMem_takeWhile⟩
  · exact holds_append.mpr ⟨hheld,hnext.1⟩
  · have hend := hnext.2 0 0 rfl
    rwa [Nat.add_zero, Nat.add_assoc, ← List.length_append] at hend

/-- The scan is over after a round for each byte and one more, with the string if there is one. -/
lemma Exact.scanRounds (h : Exact mapped read) (haddr : addr < 2^64) (hheld : Holds mapped addr out)
    (hzero : (0 : UInt8) ∉ out) (hmax : out.length ≤ max) (hrounds : max < rounds+out.length) :
    ∃ r, scanRounds read addr max rounds out = some r ∧
      ∀ bytes, r = some bytes ↔ CstrAt mapped addr max bytes := by
  induction rounds generalizing out with
  | zero => omega
  | succ rounds ih =>
    unfold Host.scanRounds
    split_ifs with hfull
    · refine ⟨none,rfl,fun bytes => ⟨nofun,fun hc => ?_⟩⟩
      exact absurd ((hc.length_le hheld hzero).trans_lt hc.short) (not_lt.mpr hfull)
    · rw [Nat.mod_eq_of_lt (h.lt_of_holds haddr hheld)]
      cases hwindow : readWindow (read (addr+out.length)) (min 64 (max-out.length)) with
      | none =>
        refine ⟨none,rfl,fun bytes => ⟨nofun,fun hc => ?_⟩⟩
        exact absurd (h.readWindow_none (by omega) hwindow) (hc.mapped_next hheld hzero)
      | some window =>
        obtain ⟨hpos,hle,hnext⟩ := h.readWindow_some hwindow
        dsimp only
        split_ifs with hmem
        · have hc : CstrAt mapped addr max (out ++ window.takeWhile (· ≠ 0)) :=
            cstrAt_window hheld hzero hnext hmem (by omega)
          refine ⟨_,rfl,fun bytes => ⟨fun heq => ?_,fun hc' => congrArg some (hc.unique hc')⟩⟩
          rwa [← Option.some.inj heq]
        · have hlen : (out ++ window).length = out.length+window.length := List.length_append
          exact ih (holds_append.mpr ⟨hheld,hnext⟩) (by simp [hzero, hmem]) (by omega) (by omega)

end Scan

section Manager

variable {m : VmMemoryManager} {addr size fuel a : ℕ} {contents : ℕ → UInt8} {b : UInt8}

/-- The bytes of the regions. -/
def mappedByte (m : VmMemoryManager) (contents : ℕ → UInt8) (a : ℕ) : Option UInt8 :=
  (m.containingVma a).map fun _ => byteAt contents m.stores a

lemma mappedByte_eq_some (h : Laid m) :
    mappedByte m contents a = some b ↔ Mapped m a ∧ byteAt contents m.stores a = b := by
  unfold mappedByte
  rw [Option.map_eq_some_iff]
  constructor
  · rintro ⟨vma,hvma,rfl⟩
    obtain ⟨hmem,hin⟩ := h.containingVma_eq_some.mp hvma
    obtain ⟨entry,he,rfl⟩ := List.mem_map.mp hmem
    exact ⟨⟨entry,he,hin⟩,rfl⟩
  · rintro ⟨⟨entry,he,hin⟩,rfl⟩
    exact ⟨entry.2,h.containingVma_eq_some.mpr ⟨List.mem_map_of_mem he,hin⟩,rfl⟩

/-- A range of mapped bytes ends in the arena. -/
lemma spanned_of_mapped (h : Laid m) (hpos : size ≠ 0) (hmapped : ∀ i < size, Mapped m (addr+i)) :
    Spanned m addr size := by
  have huser := m.vm.userSpace
  constructor
  · obtain ⟨last,hlast,-,hstop⟩ := hmapped (size-1) (by omega)
    have hspan := h.belowSpan last hlast
    omega
  · intro a hle hlt
    have hat := hmapped (a-addr) (by omega)
    rwa [Nat.add_sub_cancel' hle] at hat

lemma held_iff (h : Laid m) {bytes : List UInt8} :
    bytes.length = size ∧ Holds (mappedByte m contents) addr bytes ↔
      (∀ i < size, Mapped m (addr+i)) ∧
        (List.range size).map (fun i => byteAt contents m.stores (addr+i)) = bytes := by
  constructor
  · rintro ⟨rfl,hheld⟩
    have hat : ∀ i (hi : i < bytes.length), Mapped m (addr+i) ∧
        byteAt contents m.stores (addr+i) = bytes[i] :=
      fun i hi => (mappedByte_eq_some h).mp (hheld i _ (List.getElem?_eq_getElem hi))
    refine ⟨fun i hi => (hat i hi).1,List.ext_getElem (by simp) fun i hi hi' => ?_⟩
    simpa using (hat i hi').2
  · rintro ⟨hmapped,rfl⟩
    refine ⟨by simp,fun i b hb => ?_⟩
    obtain ⟨hi,rfl⟩ := List.getElem?_eq_some_iff.mp hb
    rw [List.length_map, List.length_range] at hi
    exact (mappedByte_eq_some h).mpr ⟨hmapped i hi,by simp⟩

/-- The reads that go through the table of regions are the exact reads of what it maps. -/
theorem exact_readBytesRanged (h : Laid m) (hbase : ∀ entry ∈ m.allocations, guestBase ≤ entry.2.start)
    (hfuel : m.allocations.length < fuel) : Exact (mappedByte m contents) fun addr size =>
      (m.readBytesRanged contents fuel addr size).bind Except.toOption := by
  have huser := m.vm.userSpace
  constructor
  · intro a b hb
    obtain ⟨⟨entry,he,-,hstop⟩,-⟩ := (mappedByte_eq_some h).mp hb
    have hspan := h.belowSpan entry he
    omega
  · intro addr size bytes
    rw [held_iff h]
    unfold VmMemoryManager.readBytesRanged
    split_ifs with hzero
    · subst hzero
      simp [Except.toOption]
    · obtain ⟨r,hcheck,-,hiff⟩ := h.rangeCheck_iff addr size hfuel
      rw [hcheck]
      cases r with
      | error e =>
        refine ⟨nofun,fun ⟨hmapped,_⟩ => absurd (hiff.mpr (spanned_of_mapped h hzero hmapped)) nofun⟩
      | ok u =>
        have hspanned : Spanned m addr size := hiff.mp rfl
        obtain ⟨first,hfirst,hstart,-⟩ := hspanned.2 addr (le_refl _) (by omega)
        obtain ⟨last,hlast,-,hstop⟩ := hspanned.2 (addr+size-1) (by omega) (by omega)
        have hspan := h.belowSpan last hlast
        have hstart' := hbase first hfirst
        have hin : guestBase ≤ addr ∧ addr+size ≤ m.vm.span := ⟨by omega,by omega⟩
        have hmapped : ∀ i < size, Mapped m (addr+i) :=
          fun i hi => hspanned.2 _ (Nat.le_add_right _ _) (by omega)
        simp only [VmMemoryManager.readBytes, if_pos hin, Option.bind_some, Except.toOption,
          Option.some.injEq]
        exact (and_iff_right hmapped).symm

end Manager

/-- A string is read exactly when it is there, whatever the windows. -/
theorem readCstrText_exact {κ : Type} {host : Host κ} {w : World κ}
    {read : World κ → (addr size : ℕ) → Option (List UInt8)} {mapped : ℕ → Option UInt8}
    {addr max rounds : ℕ} (hread : host.boundedRead = some read) (hexact : Exact mapped (read w))
    (harena : host.rangeInArena addr 1) (hrounds : max < rounds) :
    ∃ r, host.readCstrText rounds w addr max = some r ∧ ∀ s, r = some s ↔
      ∃ bytes, CstrAt mapped addr max bytes ∧ s = fromUtf8Lossy bytes := by
  have hword : addr ≠ 0 ∧ addr+1 < 2^64 := by
    unfold rangeInArena at harena
    split at harena
    · cases harena
    · obtain ⟨hne,-,hlt,-⟩ := of_decide_eq_true harena
      exact ⟨hne,hlt⟩
  obtain ⟨r,hr,hiff⟩ : ∃ r, scanRounds (read w) addr max rounds [] = some r ∧
      ∀ bytes, r = some bytes ↔ CstrAt mapped addr max bytes :=
    hexact.scanRounds (by omega) holds_nil (by simp) (Nat.zero_le _) (by simpa using hrounds)
  unfold readCstrText
  split_ifs with hnone
  · refine ⟨none,rfl,fun s => ⟨nofun,fun ⟨bytes,hc,_⟩ => ?_⟩⟩
    rcases hnone with hzero | hzero
    · exact absurd hzero hword.1
    · exact absurd hc.short (by omega)
  · refine ⟨r.map fromUtf8Lossy,by simp only [hread, hr, Option.map_some],fun s => ?_⟩
    simp only [Option.map_eq_some_iff, hiff, eq_comm]

/-- The gadget page alone, read through the table. -/
def gadgetHost : Host Unit where
  arena := some (0x10000,0x1000000000)
  boundedRead := some fun w addr size =>
    ((VmMemoryManager.new Memory.TableRun.defaultVm).readBytesRanged w.memory 2 addr size).bind Except.toOption
  writeGuest := none
  kernel := none

/-- A string that ends just before its page does. -/
theorem readCstrText_exact_gadget : ∃ r,
    gadgetHost.readCstrText 1025 ⟨(),fun a => if a = 0x30fff then 0 else 0x41,none⟩ 0x30ff0 1024 = some r ∧
      ∀ s, r = some s ↔ ∃ bytes, CstrAt (mappedByte (VmMemoryManager.new Memory.TableRun.defaultVm)
        fun a => if a = 0x30fff then 0 else 0x41) 0x30ff0 1024 bytes ∧ s = fromUtf8Lossy bytes := by
  refine readCstrText_exact (show gadgetHost.boundedRead = some _ from rfl) ?_ (by decide) (by decide)
  refine exact_readBytesRanged (Memory.laid_new _) (fun entry he => ?_) (by decide)
  obtain rfl := List.mem_singleton.mp he
  decide

end Unemups4.Files

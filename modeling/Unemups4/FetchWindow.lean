import Unemups4.Decoder
import Unemups4.ShaderCache

/-! The window of a fetch shader. It doubles until a walk over it meets a return, and each of
its reads is all or nothing: what is returned depends on where the mapping ends behind the
return. -/
namespace Unemups4.Gnm
open Gcn ShaderBinary

/-- The decoder as the provider calls it. -/
def decodeWords (words : List UInt32) : List Decoded := decodeAll (words.map UInt32.toBitVec)

/-- A provider that decodes as the source does. -/
def Recompiler.decoding {E : Type} (rc : Recompiler E) : Recompiler E :=
  { rc with decodeAll := decodeWords }

namespace GuestBytes

variable (g : GuestBytes) (addr : ℕ)

/-- Dword `i` from an address. -/
def dword (i : ℕ) : UInt32 := word (g.window (addr+4*i) 4) 0

def dwords (n : ℕ) : List UInt32 := (List.range n).map (g.dword addr)

@[simp] lemma length_dwords (n : ℕ) : (g.dwords addr n).length = n := by
  simp [dwords]

lemma take_dwords (m n : ℕ) : (g.dwords addr n).take m = g.dwords addr (min m n) := by
  simp [dwords, ← List.map_take, List.take_range]

lemma window_append (m n : ℕ) :
    g.window addr (m+n) = g.window addr m ++ g.window (addr+m) n := by
  simp [window, List.range_add, Function.comp_def, Nat.add_assoc]

lemma wordsOf_append (rest : Bytes) :
    wordsOf (g.window addr 4 ++ rest) = g.dword addr 0 :: wordsOf rest := rfl

lemma wordsOf_window (n : ℕ) : wordsOf (g.window addr (n*4)) = g.dwords addr n := by
  induction n generalizing addr with
  | zero => simp [window, dwords, wordsOf]
  | succ n ih =>
    have hsplit : g.window addr ((n+1)*4) = g.window addr 4 ++ g.window (addr+4) (n*4) := by
      rw [← window_append]
      ring_nf
    have hdword : ∀ i, g.dword (addr+4) i = g.dword addr (i+1) := by
      intro i
      simp only [dword]
      ring_nf
    rw [hsplit, g.wordsOf_append addr, ih]
    simp [dwords, List.range_succ_eq_map, hdword]

end GuestBytes

/-- The walk from a position meets its first return at `s`. -/
inductive FirstReturn (w : ℕ → Word) : ℕ → ℕ → Prop
  | here {p : ℕ} (h : isReturn (w p)) : FirstReturn w p p
  | next {p s : ℕ} (h : isReturn (w p) = false) (hs : FirstReturn w (p+instSize (w p)) s) :
      FirstReturn w p s

namespace FirstReturn

variable {w : ℕ → Word} {p s : ℕ}

lemma le (h : FirstReturn w p s) : p ≤ s := by
  induction h with
  | here => exact le_rfl
  | next _ _ ih => omega

end FirstReturn

lemma fetchAlignedReturnEnd_nil : fetchAlignedReturnEnd [] = none := rfl

lemma fetchAlignedReturnEnd_cons (d : Decoded) (ds : List Decoded) :
    fetchAlignedReturnEnd (d :: ds) =
      if d.inst.isReturn then some (d.offsetDwords+d.sizeDwords) else fetchAlignedReturnEnd ds := by
  obtain ⟨inst,size,offset⟩ := d
  cases inst with
  | sop1 op sdst ssrc0 => cases op <;> rfl
  | _ => rfl

/-- The dwords from `p` to the end of a window. -/
def windowFrom (w : ℕ → Word) (p W : ℕ) : List Word := (List.range' p (W-p)).map w

lemma windowFrom_eq_nil {w : ℕ → Word} {p W : ℕ} (h : W ≤ p) : windowFrom w p W = [] := by
  simp [windowFrom, Nat.sub_eq_zero_of_le h]

lemma windowFrom_cons {w : ℕ → Word} {p W : ℕ} (h : p < W) :
    windowFrom w p W = w p :: windowFrom w (p+1) W := by
  obtain ⟨k,rfl⟩ := Nat.exists_eq_add_of_lt h
  have hlen : p+k+1-p = k+1 := by omega
  have hlen' : p+k+1-(p+1) = k := by omega
  simp [windowFrom, hlen, hlen', List.range'_succ]

lemma drop_windowFrom (w : ℕ → Word) (p W n : ℕ) :
    (windowFrom w p W).drop n = windowFrom w (p+n) W := by
  simp [windowFrom, ← List.map_drop, List.drop_range', Nat.sub_sub]

/-- A walk over a window ends at the return if it starts within; one that is cut off by the end
of the window ends there. -/
lemma FirstReturn.decodeFrom {w : ℕ → Word} {p s : ℕ} (h : FirstReturn w p s) {W fuel : ℕ}
    (hp : p ≤ W) (hfuel : W-p ≤ fuel) :
    fetchAlignedReturnEnd (decodeFrom fuel p (windowFrom w p W)) =
      if s < W then some (min (s+instSize (w s)) W) else none := by
  induction h generalizing fuel with
  | @here p hret =>
    rcases hp.lt_or_eq with hp | rfl
    · obtain ⟨fuel,rfl⟩ := Nat.exists_eq_succ_of_ne_zero (show fuel ≠ 0 by omega)
      have hlen : (windowFrom w (p+1) W).length+1 = W-p := by
        simp only [windowFrom, List.length_map, List.length_range']
        omega
      have hclass := (decodeOne_class (w p) (windowFrom w (p+1) W)).2
      rw [windowFrom_cons hp, decodeFrom_cons, fetchAlignedReturnEnd_cons, hclass, hlen, if_pos hret,
        if_pos hp]
      simp only [Option.some.injEq]
      omega
    · simp [windowFrom_eq_nil le_rfl, Gcn.decodeFrom, fetchAlignedReturnEnd_nil]
  | @next p s hret hs ih =>
    have hle := hs.le
    have hpos := (instSize_bounds (w p)).1
    rcases hp.lt_or_eq with hp | rfl
    · obtain ⟨fuel,rfl⟩ := Nat.exists_eq_succ_of_ne_zero (show fuel ≠ 0 by omega)
      have hlen : (windowFrom w (p+1) W).length+1 = W-p := by
        simp only [windowFrom, List.length_map, List.length_range']
        omega
      have hclass := (decodeOne_class (w p) (windowFrom w (p+1) W)).2
      rw [windowFrom_cons hp, decodeFrom_cons, fetchAlignedReturnEnd_cons, hclass, hlen, hret,
        ← windowFrom_cons hp, drop_windowFrom]
      by_cases hcut : p+instSize (w p) ≤ W
      · rw [min_eq_left (by omega)]
        exact ih hcut (by omega)
      · have hend : p+min (instSize (w p)) (W-p) = W := by omega
        rw [hend, windowFrom_eq_nil le_rfl, if_neg (show ¬s < W by omega)]
        cases fuel <;> rfl
    · rw [windowFrom_eq_nil le_rfl, if_neg (show ¬s < p by omega)]
      cases fuel <;> rfl

/-- The first window that the start of a return lies in: the powers of two from 8 on. -/
def coveringWindow (s : ℕ) : ℕ := 2^max 3 s.size

lemma lt_coveringWindow (s : ℕ) : s < coveringWindow s :=
  s.lt_size_self.trans_le (Nat.pow_le_pow_right (by decide) (le_max_right _ _))

lemma le_of_lt_size {s e : ℕ} (h3 : 3 ≤ e) (he : e < max 3 s.size) : 2^e ≤ s := by
  apply Nat.lt_size.mp
  omega

namespace GuestBytes

variable (g : GuestBytes) (addr : ℕ)

/-- The code that guest memory holds from an address on. -/
def code (i : ℕ) : Word := (g.dword addr i).toBitVec

variable {g} {addr}

lemma decodeWords_dwords {s : ℕ} (h : FirstReturn (g.code addr) 0 s) (n : ℕ) :
    fetchAlignedReturnEnd (decodeWords (g.dwords addr n)) =
      if s < n then some (min (s+instSize (g.code addr s)) n) else none := by
  have hcode : (g.dwords addr n).map UInt32.toBitVec = windowFrom (g.code addr) 0 n := by
    simp [dwords, windowFrom, List.range_eq_range', code]
  have hlen : (windowFrom (g.code addr) 0 n).length = n := by simp [windowFrom]
  rw [decodeWords, hcode, decodeAll, hlen]
  exact h.decodeFrom (Nat.zero_le n) le_rfl

end GuestBytes

section Window

variable {E : Type} (rc : Recompiler E) {g : GuestBytes} {addr s : ℕ}

/-- One pass over a window. -/
lemma readFetchCode_step (h : FirstReturn (g.code addr) 0 s) (fuel n : ℕ)
    (best : Option (List UInt32)) :
    rc.decoding.readFetchCode g.readRanged addr (fuel+1) n best =
      if g.Mapped addr (n*4) then
        if s < n then some (g.dwords addr (min (s+instSize (g.code addr s)) n))
        else if 256 ≤ n then some (g.dwords addr n)
        else rc.decoding.readFetchCode g.readRanged addr fuel (min (n*2) 256) (some (g.dwords addr n))
      else best := by
  have hdecode := GuestBytes.decodeWords_dwords h n
  simp only [Recompiler.readFetchCode, Recompiler.decoding, GuestBytes.readRanged]
  by_cases hmapped : g.Mapped addr (n*4)
  · simp only [hmapped, if_true, GuestBytes.wordsOf_window, hdecode]
    by_cases hs : s < n
    · simp [hs, GuestBytes.take_dwords]
    · simp [hs]
  · simp [hmapped]

/-- From a window that does not pass the covering one, the covering window decides: it holds the
return and is cut after it, or it faults and leaves nothing that reaches past the return. -/
lemma readFetchCode_covering (h : FirstReturn (g.code addr) 0 s) (hs : s < 256)
    (hmapped : g.Mapped addr ((s+1)*4)) {e : ℕ} (h3 : 3 ≤ e) (he : e ≤ max 3 s.size)
    {best : Option (List UInt32)} (hbest : ∀ ws ∈ best, ws.length ≤ s) :
    if g.Mapped addr (coveringWindow s*4) then
      rc.decoding.readFetchCode g.readRanged addr (9-e) (2^e) best =
        some (g.dwords addr (min (s+instSize (g.code addr s)) (coveringWindow s)))
    else ∀ ws ∈ rc.decoding.readFetchCode g.readRanged addr (9-e) (2^e) best, ws.length ≤ s := by
  have hsize : s.size ≤ 8 := Nat.size_le.mpr hs
  obtain ⟨k,hk⟩ := Nat.exists_eq_add_of_le he
  induction k generalizing e best with
  | zero =>
    have hwindow : 2^e = coveringWindow s := by rw [coveringWindow, hk, Nat.add_zero]
    obtain ⟨fuel,hfuel⟩ := Nat.exists_eq_succ_of_ne_zero (show 9-e ≠ 0 by omega)
    rw [hfuel, readFetchCode_step rc h, hwindow, if_pos (lt_coveringWindow s)]
    split_ifs
    · rfl
    · exact hbest
  | succ k ih =>
    have hle : 2^e ≤ s := le_of_lt_size h3 (by omega)
    obtain ⟨fuel,hfuel⟩ := Nat.exists_eq_succ_of_ne_zero (show 9-e ≠ 0 by omega)
    have hmap : g.Mapped addr (2^e*4) := hmapped.mono (by omega)
    have hdouble : min (2^e*2) 256 = 2^(e+1) := by
      have hpow : 2^(e+1) ≤ 2^8 := Nat.pow_le_pow_right (by decide) (by omega)
      rw [← pow_succ]
      exact min_eq_left hpow
    have hbest' : ∀ ws ∈ some (g.dwords addr (2^e)), ws.length ≤ s := by simpa using hle
    have hrest := ih (show 3 ≤ e+1 by omega) (by omega) hbest' (by omega)
    have hfuel' : 9-(e+1) = fuel := by omega
    rw [hfuel'] at hrest
    rw [hfuel, readFetchCode_step rc h, if_pos hmap, if_neg (show ¬s < 2^e by omega),
      if_neg (show ¬256 ≤ 2^e by omega), hdouble]
    exact hrest

/-- The fetch code is read exactly if and only if the covering window is mapped and holds the
whole return. -/
theorem readFetchCode_exact_iff (h : FirstReturn (g.code addr) 0 s)
    (hend : s+instSize (g.code addr s) ≤ 256)
    (hmapped : g.Mapped addr ((s+instSize (g.code addr s))*4)) :
    rc.decoding.readFetchCode g.readRanged addr 6 8 none =
        some (g.dwords addr (s+instSize (g.code addr s))) ↔
      g.Mapped addr (coveringWindow s*4) ∧ s+instSize (g.code addr s) ≤ coveringWindow s := by
  have hpos := (instSize_bounds (g.code addr s)).1
  have hread := readFetchCode_covering rc h (by omega) (hmapped.mono (by omega)) le_rfl
    (le_max_left 3 s.size) (show ∀ ws ∈ (none : Option (List UInt32)), ws.length ≤ s by simp)
  have hlen : ∀ n, n < s+instSize (g.code addr s) →
      g.dwords addr n ≠ g.dwords addr (s+instSize (g.code addr s)) := by
    intro n hn heq
    have := congrArg List.length heq
    simp only [GuestBytes.length_dwords] at this
    omega
  split_ifs at hread with hmap
  · constructor
    · intro hexact
      refine ⟨hmap,?_⟩
      by_contra hlong
      rw [not_le] at hlong
      have heq := Option.some.inj (hread.symm.trans hexact)
      rw [min_eq_right hlong.le] at heq
      exact hlen _ hlong heq
    · rintro ⟨-,hle⟩
      rw [min_eq_left hle] at hread
      exact hread
  · constructor
    · intro hexact
      have := hread _ hexact
      simp only [GuestBytes.length_dwords] at this
      omega
    · exact fun hcond => absurd hcond.1 hmap

end Window

/-- A walk over single words. -/
lemma FirstReturn.of_single {w : ℕ → Word} {p k : ℕ}
    (h : ∀ i < k, isReturn (w (p+i)) = false ∧ instSize (w (p+i)) = 1) (hk : isReturn (w (p+k))) :
    FirstReturn w p (p+k) := by
  induction k generalizing p with
  | zero => exact .here hk
  | succ k ih =>
    obtain ⟨hret,hsize⟩ := h 0 (Nat.succ_pos k)
    have hshift : ∀ i, p+1+i = p+(i+1) := fun i => by omega
    refine .next hret ?_
    rw [Nat.add_zero] at hsize
    rw [hsize, ← hshift k]
    refine ih (fun i hi => ?_) (by rwa [hshift])
    rw [hshift]
    exact h (i+1) (Nat.succ_lt_succ hi)

/-- A provider that only decodes. -/
def noRecompiler : Recompiler Unit where
  decodeAll := decodeWords
  resolveFetchCall _ _ := none
  recompileWith _ _ _ := .error ()

/-- Ten no-ops and a return at 0x1000, with `len` bytes mapped. -/
def returnAtTen (len : ℕ) : GuestBytes where
  mapped a := 0x1000 ≤ a && a < min (0x1000+len) (2^64)
  isWord a h := by
    simp only [Bool.and_eq_true, decide_eq_true_eq, lt_min_iff] at h
    exact h.2.2
  byte a :=
    let w : UInt32 := if (a-0x1000)/4 = 10 then 0xbe802000 else 0x7e000000
    (w >>> (8*((a-0x1000)%4)).toUInt32).toUInt8

lemma firstReturn_returnAtTen (len : ℕ) : FirstReturn ((returnAtTen len).code 0x1000) 0 10 := by
  have hfirst : FirstReturn ((returnAtTen 0).code 0x1000) 0 (0+10) :=
    .of_single (by decide) (by decide)
  exact hfirst

/-- A window of sixteen dwords is read exactly. -/
theorem readFetchCode_exact_sixteen :
    (noRecompiler.decoding.readFetchCode (returnAtTen 64).readRanged 0x1000 6 8 none =
      some ((returnAtTen 64).dwords 0x1000 11)) :=
  (readFetchCode_exact_iff noRecompiler (firstReturn_returnAtTen 64) (by decide) (by decide)).mpr
    (by decide)

/-- A return at dword 10 of twelve mapped dwords is lost: the floor window is handed back. -/
theorem readFetchCode_not_exact : ¬∀ (g : GuestBytes) (addr s : ℕ),
    FirstReturn (g.code addr) 0 s → s+instSize (g.code addr s) ≤ 256 →
    g.Mapped addr ((s+instSize (g.code addr s))*4) →
    noRecompiler.decoding.readFetchCode g.readRanged addr 6 8 none =
      some (g.dwords addr (s+instSize (g.code addr s))) := by
  intro h
  have hexact := h (returnAtTen 48) 0x1000 10 (firstReturn_returnAtTen 48) (by decide) (by decide)
  exact absurd hexact (by decide)

end Unemups4.Gnm

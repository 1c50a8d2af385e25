import Unemups4.CfgBlocks
import Unemups4.FetchShader

/-! The call of a fetch shader, resolved by splicing its body into the main stream. The
instructions are renumbered, their branch displacements are not. -/
namespace Unemups4.Gcn

inductive FetchResolveError where
  | noCall
  | multipleCalls
  | badCallShape (offset : ℕ) (reason : String)
  | unrecognizedFetchBody
  | noFetchReturn
  deriving DecidableEq, Repr

def isSwappc (d : Decoded) : Bool :=
  match d.inst with
  | .sop1 .sSwappcB64 _ _ => true
  | _ => false

def isSetpc (d : Decoded) : Bool :=
  match d.inst with
  | .sop1 .sSetpcB64 _ _ => true
  | _ => false

def Operand.isSgpr : Operand → Bool
  | .sgpr _ => true
  | _ => false

/-- The offsets of the spliced stream, from `pc` on; the counter has 32 bits. -/
def renumber (pc : ℕ) : List Decoded → List Decoded
  | [] => []
  | d :: rest => { d with offsetDwords := pc } :: renumber ((pc+d.sizeDwords)%2^32) rest

/-- What is before the call, the fetch body without its return, what is after the call. -/
def spliced (main fetch : List Decoded) (callIdx returnIdx : ℕ) : List Decoded :=
  main.take callIdx ++ fetch.take returnIdx ++ main.drop (callIdx+1)

def resolveFetchCall (main fetch : List Decoded) : Except FetchResolveError (List Decoded) :=
  match main.zipIdx.filter fun p => isSwappc p.1 with
  | [] => .error .noCall
  | (call,callIdx) :: more =>
      if more ≠ [] then .error .multipleCalls
      else match call.inst with
        | .sop1 _ sdst ssrc0 =>
            if ¬ssrc0.isSgpr then
              .error (.badCallShape call.offsetDwords
                "s_swappc_b64 fetch address (ssrc0) is not an SGPR pair")
            else if ¬sdst.isSgpr then
              .error (.badCallShape call.offsetDwords
                "s_swappc_b64 return-PC dest (sdst) is not an SGPR pair")
            else if (parseFetchShader fetch).isNone then .error .unrecognizedFetchBody
            else match fetch.findIdx? fun d => d.inst.isReturn with
              | none => .error .noFetchReturn
              | some returnIdx => .ok (renumber 0 (spliced main fetch callIdx returnIdx))
        | _ => .error (.badCallShape call.offsetDwords "s_swappc_b64 is not a SOP1 instruction")

/-- The dwords of a stretch of instructions. -/
def dwords (l : List Decoded) : ℕ := (l.map (·.sizeDwords)).sum

section Renumber

@[simp] lemma dwords_nil : dwords [] = 0 := rfl

@[simp] lemma dwords_cons (d : Decoded) (l : List Decoded) :
    dwords (d :: l) = d.sizeDwords+dwords l := rfl

@[simp] lemma dwords_append (l l' : List Decoded) : dwords (l ++ l') = dwords l+dwords l' := by
  simp [dwords]

lemma branchOf_move {d : Decoded} {t : ℤ} (h : branchOf d = some t) (pc : ℕ) :
    branchOf { d with offsetDwords := pc } = some (t-d.offsetDwords+pc) := by
  obtain ⟨inst,size,off⟩ := d
  cases inst with
  | sopp op simm =>
    cases op <;> simp_all [branchOf, classifyTerminator, branchTarget] <;> omega
  | _ => simp [branchOf, classifyTerminator] at h

@[simp] lemma renumber_length (pc : ℕ) (l : List Decoded) : (renumber pc l).length = l.length := by
  induction l generalizing pc with
  | nil => rfl
  | cons d l ih => simp [renumber, ih]

lemma renumber_getElem? {l : List Decoded} {pc k : ℕ} {d : Decoded} (hpc : pc < 2^32)
    (hd : l[k]? = some d) :
    (renumber pc l)[k]? = some { d with offsetDwords := (pc+dwords (l.take k))%2^32 } := by
  induction l generalizing pc k with
  | nil => simp at hd
  | cons e l ih =>
    cases k with
    | zero =>
      cases hd
      rw [renumber, List.getElem?_cons_zero, List.take_zero, dwords_nil, Nat.add_zero,
        Nat.mod_eq_of_lt hpc]
    | succ k =>
      rw [List.getElem?_cons_succ] at hd
      rw [renumber, List.getElem?_cons_succ, ih (Nat.mod_lt _ (by norm_num)) hd]
      simp [Nat.add_assoc]

lemma mem_renumber {l : List Decoded} {pc : ℕ} {d : Decoded} (h : d ∈ renumber pc l) :
    ∃ e ∈ l, e.inst = d.inst ∧ e.sizeDwords = d.sizeDwords := by
  induction l generalizing pc with
  | nil => simp [renumber] at h
  | cons e l ih =>
    rcases List.mem_cons.mp h with rfl | h
    · exact ⟨e,List.mem_cons_self,rfl,rfl⟩
    · obtain ⟨x,hx,heq⟩ := ih h
      exact ⟨x,List.mem_cons_of_mem _ hx,heq⟩

lemma renumber_insts (pc : ℕ) (l : List Decoded) :
    (renumber pc l).map (·.inst) = l.map (·.inst) := by
  induction l generalizing pc with
  | nil => rfl
  | cons d l ih => simp [renumber, ih]

/-- Renumbered offsets are contiguous unless the counter wraps. -/
lemma contiguous_renumber {l : List Decoded} (hl : ∀ d ∈ l, 1 ≤ d.sizeDwords) {pc : ℕ}
    (hpc : pc < 2^32) : Contiguous (renumber pc l) ↔ pc+dwords l.dropLast < 2^32 := by
  induction l generalizing pc with
  | nil => simpa [renumber, Contiguous] using hpc
  | cons d l ih =>
    have hd := hl d List.mem_cons_self
    have hl' : ∀ e ∈ l, 1 ≤ e.sizeDwords := fun e he => hl e (List.mem_cons_of_mem _ he)
    cases l with
    | nil => simpa [renumber, Contiguous, hd] using hpc
    | cons e l =>
      have hmod : (pc+d.sizeDwords)%2^32 < 2^32 := Nat.mod_lt _ (by norm_num)
      have hrest := ih hl' hmod
      rw [renumber] at hrest ⊢
      rw [renumber]
      simp only [Contiguous, hd, true_and, hrest, List.dropLast_cons_cons, dwords_cons]
      omega

end Renumber

def callIndex (main : List Decoded) : ℕ := main.findIdx isSwappc

def returnIndex (fetch : List Decoded) : ℕ := fetch.findIdx fun d => d.inst.isReturn

/-- Where an instruction of the main stream is in the spliced one; the first inlined one is in
the place of the call. -/
def movedTo (main fetch : List Decoded) (k : ℕ) : ℕ :=
  if k ≤ callIndex main then k else k-1+returnIndex fetch

/-- The spliced stream is laid out anew, nothing is left of the call, and the branches of the
main stream lead where they led. -/
structure SplicePreserves (main fetch out : List Decoded) : Prop where
  contiguous : Contiguous out
  resolved : ∀ d ∈ out, isSwappc d = false ∧ isSetpc d = false
  branches : ∀ i j d e, main[i]? = some d → main[j]? = some e →
    branchOf d = some (e.offsetDwords : ℤ) →
    ∃ d' e', out[movedTo main fetch i]? = some d' ∧ d'.inst = d.inst ∧
      out[movedTo main fetch j]? = some e' ∧ branchOf d' = some (e'.offsetDwords : ℤ)

lemma isReturn_eq (d : Decoded) : d.inst.isReturn = (isSwappc d || isSetpc d) := by
  obtain ⟨inst,size,off⟩ := d
  cases inst with
  | sop1 op sdst ssrc0 => cases op <;> rfl
  | _ => rfl

lemma parseFetchShader_ne_nil {fetch : List Decoded} {layout : FetchLayout}
    (h : parseFetchShader fetch = some layout) : layout.attributes ≠ [] := by
  unfold parseFetchShader at h
  split at h
  · cases h
  · split_ifs at h with hne
    cases h
    exact hne

/-- What a stream that resolves is made of. -/
structure Resolves (main fetch out : List Decoded) (call : Decoded) : Prop where
  called : main[callIndex main]? = some call
  swappc : isSwappc call = true
  unique : ∀ i d, main[i]? = some d → isSwappc d = true → i = callIndex main
  inlined : 0 < returnIndex fetch ∧ returnIndex fetch < fetch.length
  body : ∀ d ∈ fetch.take (returnIndex fetch), d.inst.isReturn = false
  out_eq : out = renumber 0 (spliced main fetch (callIndex main) (returnIndex fetch))

lemma resolves_of_ok {main fetch out : List Decoded} (h : resolveFetchCall main fetch = .ok out) :
    ∃ call, Resolves main fetch out call := by
  unfold resolveFetchCall at h
  split at h
  · cases h
  · rename_i call callIdx more hcalls
    by_cases hmore : more ≠ []
    · rw [if_pos hmore] at h
      cases h
    rw [if_neg hmore] at h
    obtain rfl : more = [] := not_not.mp hmore
    have hmem {d : Decoded} {i : ℕ} :
        main[i]? = some d ∧ isSwappc d = true ↔ d = call ∧ i = callIdx := by
      have hfilter : (d,i) ∈ main.zipIdx.filter (fun p => isSwappc p.1) ↔
          main[i]? = some d ∧ isSwappc d = true := by
        rw [List.mem_filter, List.mem_zipIdx_iff_getElem?]
      rw [← hfilter, hcalls, List.mem_singleton, Prod.mk.injEq]
    obtain ⟨hcall,hswappc⟩ := hmem.mpr ⟨rfl,rfl⟩
    have hlt : callIdx < main.length := (List.getElem?_eq_some_iff.mp hcall).1
    have hidx : callIndex main = callIdx := by
      refine (List.findIdx_eq hlt).mpr ⟨?_,fun j hj => ?_⟩
      · rw [(List.getElem?_eq_some_iff.mp hcall).2]
        exact hswappc
      · have hjlt : j < main.length := hj.trans hlt
        by_contra hne
        have hj' := hmem.mp ⟨List.getElem?_eq_getElem hjlt,by simpa using hne⟩
        omega
    split at h
    · split_ifs at h with hsrc hdst hparse
      split at h
      · cases h
      · rename_i returnIdx hreturn
        cases h
        obtain ⟨hfetch,hret,hbefore⟩ := List.findIdx?_eq_some_iff_getElem.mp hreturn
        have hridx : returnIndex fetch = returnIdx := by
          refine (List.findIdx_eq hfetch).mpr ⟨hret,fun j hj => ?_⟩
          simpa using hbefore j hj
        refine ⟨call,hidx ▸ hcall,hswappc,fun i d hi hd => ?_,?_,?_,by rw [hidx, hridx]⟩
        · rw [hidx]
          exact (hmem.mp ⟨hi,hd⟩).2
        · rw [hridx]
          refine ⟨Nat.pos_of_ne_zero fun hzero => ?_,hfetch⟩
          have hsome : parseFetchShader fetch ≠ none := by simpa using hparse
          obtain ⟨layout,hlayout⟩ := Option.ne_none_iff_exists'.mp hsome
          have hattrs := attributesFrom_of_parseFetchShader hlayout
          subst hzero
          cases fetch with
          | nil => simp at hfetch
          | cons d rest =>
            have hd : d.inst.isReturn = true := hret
            simp only [fetchOps, hd, if_true, attributesFrom, Option.some.injEq] at hattrs
            exact parseFetchShader_ne_nil hlayout hattrs.symm
        · rw [hridx]
          intro d hd
          obtain ⟨j,hj,rfl⟩ := List.mem_take_iff_getElem.mp hd
          simpa using hbefore j (by omega)
    · cases h

lemma Contiguous.size_pos_of_mem {l : List Decoded} (h : Contiguous l) {d : Decoded} (hd : d ∈ l) :
    1 ≤ d.sizeDwords := by
  induction l with
  | nil => simp at hd
  | cons e l ih =>
    rcases List.mem_cons.mp hd with rfl | hd
    · exact h.size_pos
    · exact ih h.tail hd

/-- In a contiguous stream an instruction stands past those before it. -/
lemma Contiguous.offset_eq {l : List Decoded} (h : Contiguous l) {first d : Decoded} {k : ℕ}
    (hfirst : l[0]? = some first) (hd : l[k]? = some d) :
    d.offsetDwords = first.offsetDwords+dwords (l.take k) := by
  induction k generalizing d with
  | zero =>
    rw [hfirst] at hd
    cases hd
    simp
  | succ k ih =>
    have hk : k < l.length := by
      have := (List.getElem?_eq_some_iff.mp hd).1
      omega
    have hprev : l[k]? = some l[k] := List.getElem?_eq_getElem hk
    rw [h.offset_succ hprev hd, ih hprev, List.take_succ_eq_append_getElem hk, dwords_append]
    simp [Nat.add_assoc]

/-- What stands before an instruction is within all but the last. -/
lemma dwords_take_le {l : List Decoded} {k : ℕ} (hk : k < l.length) :
    dwords (l.take k) ≤ dwords l.dropLast := by
  have hprefix : l.take k = l.dropLast.take k := by
    rw [List.dropLast_eq_take, List.take_take, Nat.min_eq_left (by omega)]
  conv_rhs => rw [← List.take_append_drop k l.dropLast, dwords_append, ← hprefix]
  exact Nat.le_add_right _ _

namespace Resolves

variable {main fetch out : List Decoded} {call : Decoded}

/-- The spliced stream before it is renumbered. -/
abbrev raw (main fetch : List Decoded) : List Decoded :=
  spliced main fetch (callIndex main) (returnIndex fetch)

def bodyDwords (fetch : List Decoded) : ℕ := dwords (fetch.take (returnIndex fetch))

lemma lengths (h : Resolves main fetch out call) :
    (main.take (callIndex main)).length = callIndex main ∧
      (fetch.take (returnIndex fetch)).length = returnIndex fetch := by
  have hlt := (List.getElem?_eq_some_iff.mp h.called).1
  have hret := h.inlined.2
  simp only [List.length_take]
  omega

/-- Every instruction but the call is where `movedTo` says. -/
lemma raw_getElem? (h : Resolves main fetch out call) {k : ℕ} (hk : k ≠ callIndex main) :
    (raw main fetch)[movedTo main fetch k]? = main[k]? := by
  obtain ⟨hfirst,hbody⟩ := h.lengths
  have hinlined := h.inlined.1
  unfold raw spliced movedTo
  split_ifs with hle
  · have hlt : k < callIndex main := by omega
    rw [List.append_assoc, List.getElem?_append_left (by omega), List.getElem?_take, if_pos hlt]
  · rw [List.getElem?_append_right (by simp only [List.length_append]; omega), List.getElem?_drop]
    congr 1
    simp only [List.length_append]
    omega

/-- In the place of the call is the first inlined instruction. -/
lemma raw_call (h : Resolves main fetch out call) :
    (raw main fetch)[callIndex main]? = fetch[0]? := by
  obtain ⟨hfirst,hbody⟩ := h.lengths
  have hinlined := h.inlined.1
  unfold raw spliced
  rw [List.append_assoc, List.getElem?_append_right (by omega), hfirst, Nat.sub_self,
    List.getElem?_append_left (by omega), List.getElem?_take, if_pos hinlined]

/-- Up to the call the dwords before an instruction stay, after it the body replaces the call. -/
lemma dwords_moved (h : Resolves main fetch out call) (k : ℕ) :
    dwords ((raw main fetch).take (movedTo main fetch k))+
        (if k ≤ callIndex main then 0 else call.sizeDwords) =
      dwords (main.take k)+if k ≤ callIndex main then 0 else bodyDwords fetch := by
  obtain ⟨hfirst,hbody⟩ := h.lengths
  have hinlined := h.inlined.1
  obtain ⟨hlt,hcall⟩ := List.getElem?_eq_some_iff.mp h.called
  unfold raw spliced movedTo bodyDwords
  split_ifs with hle
  · rw [List.append_assoc, List.take_append_of_le_length (by omega), List.take_take,
      Nat.min_eq_left hle]
  · obtain ⟨r,rfl⟩ : ∃ r, k = callIndex main+1+r := ⟨k-callIndex main-1,by omega⟩
    have hmain : dwords (main.take (callIndex main+1+r)) = dwords (main.take (callIndex main))+
        call.sizeDwords+dwords ((main.drop (callIndex main+1)).take r) := by
      rw [List.take_add, dwords_append, List.take_succ_eq_append_getElem hlt, dwords_append, hcall]
      simp
    have hindex : callIndex main+1+r-1+returnIndex fetch =
        (main.take (callIndex main) ++ fetch.take (returnIndex fetch)).length+r := by
      rw [List.length_append, hfirst, hbody]
      omega
    rw [hindex, List.take_length_add_append, dwords_append, dwords_append, hmain]
    omega

/-- The call is the only one of its kind, so what is left of it are the returns of the main
stream itself. -/
lemma resolved_iff (h : Resolves main fetch out call) :
    (∀ d ∈ out, isSwappc d = false ∧ isSetpc d = false) ↔ ∀ d ∈ main, isSetpc d = false := by
  have hother {k : ℕ} {d : Decoded} (hd : main[k]? = some d) (hk : k ≠ callIndex main) :
      isSwappc d = false := by
    by_contra hne
    exact hk (h.unique k d hd (by simpa using hne))
  constructor
  · intro hout d hd
    obtain ⟨k,hk⟩ := List.getElem?_of_mem hd
    by_cases hcall : k = callIndex main
    · subst hcall
      obtain rfl : call = d := Option.some.inj (h.called.symm.trans hk)
      have hswappc := h.swappc
      obtain ⟨inst,size,off⟩ := call
      cases inst with
      | sop1 op => cases op <;> simp_all [isSwappc, isSetpc]
      | _ => rfl
    · have hraw := List.mem_of_getElem? ((h.raw_getElem? hcall).trans hk)
      have hinst : d.inst ∈ out.map (·.inst) := by
        rw [h.out_eq, renumber_insts]
        exact List.mem_map_of_mem hraw
      obtain ⟨x,hx,heq⟩ := List.mem_map.mp hinst
      have hsetpc := (hout x hx).2
      simpa only [isSetpc, heq] using hsetpc
  · intro hmain d hd
    rw [h.out_eq] at hd
    obtain ⟨e,he,hinst,-⟩ := mem_renumber hd
    have hsame : isSwappc d = isSwappc e ∧ isSetpc d = isSetpc e := by
      simp only [isSwappc, isSetpc, hinst, and_self]
    rw [hsame.1, hsame.2]
    rcases List.mem_append.mp he with he | he
    · rcases List.mem_append.mp he with he | he
      · obtain ⟨k,hk⟩ := List.getElem?_of_mem he
        rw [List.getElem?_take] at hk
        split_ifs at hk with hlt
        exact ⟨hother hk (by omega),hmain e (List.mem_of_getElem? hk)⟩
      · have hreturn := h.body e he
        rw [isReturn_eq, Bool.or_eq_false_iff] at hreturn
        exact hreturn
    · obtain ⟨k,hk⟩ := List.getElem?_of_mem he
      rw [List.getElem?_drop] at hk
      exact ⟨hother hk (by omega),hmain e (List.mem_of_getElem? hk)⟩

/-- While the counter does not wrap, an instruction of the raw stream is in the result under the
dwords before it. -/
lemma out_getElem? (h : Resolves main fetch out call) (hfits : dwords (raw main fetch).dropLast < 2^32)
    {k : ℕ} {x : Decoded} (hx : (raw main fetch)[k]? = some x) :
    out[k]? = some { x with offsetDwords := dwords ((raw main fetch).take k) } := by
  have hlt := dwords_take_le (List.getElem?_eq_some_iff.mp hx).1
  rw [h.out_eq, renumber_getElem? (by norm_num) hx, Nat.zero_add, Nat.mod_eq_of_lt (by omega)]

lemma branch_ne_call (h : Resolves main fetch out call) {i : ℕ} {d : Decoded} {t : ℤ}
    (hd : main[i]? = some d) (hb : branchOf d = some t) : i ≠ callIndex main := by
  rintro rfl
  obtain rfl : call = d := Option.some.inj (h.called.symm.trans hd)
  have hswappc := h.swappc
  obtain ⟨inst,size,off⟩ := call
  cases inst with
  | sop1 => simp [branchOf, classifyTerminator] at hb
  | _ => simp [isSwappc] at hswappc

/-- A branch still leads to its instruction just when the inlined body is as long as the call, or
branch and target are on the same side of it. -/
lemma branch_iff (h : Resolves main fetch out call) (hmain : Contiguous main)
    (hfits : dwords (raw main fetch).dropLast < 2^32) {i j : ℕ} {d e : Decoded}
    (hd : main[i]? = some d) (he : main[j]? = some e)
    (hb : branchOf d = some (e.offsetDwords : ℤ)) :
    (∃ d' e', out[movedTo main fetch i]? = some d' ∧ d'.inst = d.inst ∧
        out[movedTo main fetch j]? = some e' ∧ branchOf d' = some (e'.offsetDwords : ℤ)) ↔
      bodyDwords fetch = call.sizeDwords ∨ (i ≤ callIndex main ↔ j ≤ callIndex main) := by
  have hd' := h.out_getElem? hfits ((h.raw_getElem? (h.branch_ne_call hd hb)).trans hd)
  obtain ⟨x,hx⟩ : ∃ x, (raw main fetch)[movedTo main fetch j]? = some x := by
    by_cases hj : j = callIndex main
    · have hfetch : 0 < fetch.length := by
        have := h.inlined
        omega
      refine ⟨fetch[0],?_⟩
      rw [hj, movedTo, if_pos le_rfl, h.raw_call]
      exact List.getElem?_eq_getElem hfetch
    · exact ⟨e,(h.raw_getElem? hj).trans he⟩
  have he' := h.out_getElem? hfits hx
  have hmoved := branchOf_move hb (dwords ((raw main fetch).take (movedTo main fetch i)))
  have hiff : (∃ d' e', out[movedTo main fetch i]? = some d' ∧ d'.inst = d.inst ∧
        out[movedTo main fetch j]? = some e' ∧ branchOf d' = some (e'.offsetDwords : ℤ)) ↔
      (e.offsetDwords : ℤ)-d.offsetDwords+dwords ((raw main fetch).take (movedTo main fetch i)) =
        dwords ((raw main fetch).take (movedTo main fetch j)) := by
    constructor
    · rintro ⟨d',e',hdout,-,heout,hbranch⟩
      rw [hd'] at hdout
      rw [he'] at heout
      cases hdout
      cases heout
      exact Option.some.inj (hmoved.symm.trans hbranch)
    · intro heq
      exact ⟨_,_,hd',rfl,he',hmoved.trans (congrArg some heq)⟩
  obtain ⟨first,hfirst⟩ : ∃ first, main[0]? = some first := by
    have hlt := (List.getElem?_eq_some_iff.mp hd).1
    exact ⟨main[0],List.getElem?_eq_getElem (by omega)⟩
  have hdoff := hmain.offset_eq hfirst hd
  have heoff := hmain.offset_eq hfirst he
  have hi := h.dwords_moved i
  have hj := h.dwords_moved j
  rw [hiff, hdoff, heoff]
  push_cast
  split_ifs at hi hj with hicall hjcall hjcall <;> omega

end Resolves

/-- When the result keeps the control flow of the main stream: its offsets fit in 32 bits, the main
stream has no return of its own, and no branch crosses a call that grows. -/
theorem resolveFetchCall_preserves_iff (main fetch : Stream) {out : List Decoded}
    (h : resolveFetchCall main.insts fetch.insts = .ok out) :
    SplicePreserves main.insts fetch.insts out ↔
      dwords (spliced main.insts fetch.insts (callIndex main.insts)
        (returnIndex fetch.insts)).dropLast < 2^32 ∧
      (∀ d ∈ main.insts, isSetpc d = false) ∧
      (main.insts[callIndex main.insts]?.map (·.sizeDwords) =
          some (dwords (fetch.insts.take (returnIndex fetch.insts))) ∨
        ∀ i j d e, main.insts[i]? = some d → main.insts[j]? = some e →
          branchOf d = some (e.offsetDwords : ℤ) →
          (i ≤ callIndex main.insts ↔ j ≤ callIndex main.insts)) := by
  obtain ⟨call,hr⟩ := resolves_of_ok h
  have hsizes : ∀ d ∈ Resolves.raw main.insts fetch.insts, 1 ≤ d.sizeDwords := by
    intro d hd
    have hmem : d ∈ main.insts ∨ d ∈ fetch.insts := by
      rcases List.mem_append.mp hd with hd | hd
      · exact (List.mem_append.mp hd).imp List.mem_of_mem_take List.mem_of_mem_take
      · exact .inl (List.mem_of_mem_drop hd)
    exact hmem.elim (main.contiguous.size_pos_of_mem) (fetch.contiguous.size_pos_of_mem)
  have hcontiguous : Contiguous out ↔ dwords (Resolves.raw main.insts fetch.insts).dropLast < 2^32 := by
    rw [hr.out_eq, contiguous_renumber hsizes (by norm_num), Nat.zero_add]
  have hcall : main.insts[callIndex main.insts]?.map (·.sizeDwords) =
      some (dwords (fetch.insts.take (returnIndex fetch.insts))) ↔
        Resolves.bodyDwords fetch.insts = call.sizeDwords := by
    rw [hr.called, Option.map_some, Option.some.injEq, eq_comm]
    rfl
  rw [hcall]
  constructor
  · rintro ⟨hcont,hres,hbranches⟩
    have hfits := hcontiguous.mp hcont
    refine ⟨hfits,hr.resolved_iff.mp hres,?_⟩
    by_contra hnot
    obtain ⟨hne,hcross⟩ := not_or.mp hnot
    refine hcross fun i j d e hd he hb => ?_
    exact ((hr.branch_iff main.contiguous hfits hd he hb).mp
      (hbranches i j d e hd he hb)).resolve_left hne
  · rintro ⟨hfits,hsetpc,hsides⟩
    refine ⟨hcontiguous.mpr hfits,hr.resolved_iff.mpr hsetpc,fun i j d e hd he hb => ?_⟩
    exact (hr.branch_iff main.contiguous hfits hd he hb).mpr
      (hsides.imp_right fun hsame => hsame i j d e hd he hb)

/-- A load, a fetch and the return, three dwords inlined. -/
def fetchBody : Stream where
  insts := [⟨.smrd .sLoadDwordx4 (.sgpr 8) 2 true 0,1,0⟩,
    ⟨.mubuf .bufferLoadFormatXyzw (.vgpr 4) (.vgpr 0) 8 (.inlineInt 0) 0 true false,2,1⟩,
    ⟨.sop1 .sSetpcB64 (.sgpr 0) (.sgpr 0),1,3⟩]
  contiguous := by decide
  bounded := by decide

def fetchCall (off : ℕ) : Decoded := ⟨.sop1 .sSwappcB64 (.sgpr 0) (.sgpr 0),1,off⟩

/-- A branch behind the call. -/
def branchBehind : Stream where
  insts := [fetchCall 0,⟨.sopp .sCbranchVccz 0,1,1⟩,⟨.sopp .sEndpgm 0,1,2⟩]
  contiguous := by decide
  bounded := by decide

/-- A branch over the call. -/
def branchOver : Stream where
  insts := [⟨.sopp .sCbranchVccz 1,1,0⟩,fetchCall 1,⟨.sopp .sEndpgm 0,1,2⟩]
  contiguous := by decide
  bounded := by decide

/-- A main stream that returns. -/
def returnBehind : Stream where
  insts := [fetchCall 0,⟨.sop1 .sSetpcB64 (.sgpr 2) (.sgpr 2),1,1⟩]
  contiguous := by decide
  bounded := by decide

theorem resolveFetchCall_preserves_behind :
    ∃ out, resolveFetchCall branchBehind.insts fetchBody.insts = .ok out ∧
      SplicePreserves branchBehind.insts fetchBody.insts out := by
  refine ⟨_,rfl,(resolveFetchCall_preserves_iff branchBehind fetchBody rfl).mpr
    ⟨by decide,by decide,.inr fun i j d e hd he hb => ?_⟩⟩
  have hi : i < 3 := (List.getElem?_eq_some_iff.mp hd).1
  have hj : j < 3 := (List.getElem?_eq_some_iff.mp he).1
  interval_cases i <;> cases hd <;> first | cases hb | skip
  interval_cases j <;> cases he
  · exact absurd hb (by decide)
  · decide
  · decide

/-- Both main streams resolve; in the first the branch ends inside the inlined body, in the second
a return is left. -/
theorem not_resolveFetchCall_preserves :
    (∃ out, resolveFetchCall branchOver.insts fetchBody.insts = .ok out ∧
      ¬SplicePreserves branchOver.insts fetchBody.insts out) ∧
    ∃ out, resolveFetchCall returnBehind.insts fetchBody.insts = .ok out ∧
      ¬SplicePreserves returnBehind.insts fetchBody.insts out := by
  refine ⟨⟨_,rfl,fun h => ?_⟩,⟨_,rfl,fun h => ?_⟩⟩
  · obtain ⟨d,e,hd,-,he,hb⟩ := h.branches 0 2 _ _ rfl rfl rfl
    cases hd
    cases he
    exact absurd hb (by decide)
  · have hleft := (h.resolved _ (List.mem_of_getElem? (i := 2) rfl)).2
    exact absurd hleft (by decide)

end Unemups4.Gcn

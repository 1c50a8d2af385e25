import Unemups4.RecentSlots

/-! The breadcrumb ring of a thread: the last guest calls, each marked with what it returned.
Over it stands the log of all calls, of which the ring keeps the end. -/
namespace Unemups4.Breadcrumb
open RecentSlots

def ringLen : ℕ := 32

def argCount : ℕ := 6

abbrev Word64 := BitVec 64

structure Crumb where
  seq : Word64
  id : Word64
  args : Vector Word64 argCount
  ret : Word64
  returned : Bool
  deriving DecidableEq

def Crumb.empty : Crumb := ⟨0,0,Vector.replicate argCount 0,0,false⟩

/-- The ring of a thread; `nextSeq` is the number of the next call. -/
structure Ring where
  entries : Vector Crumb ringLen
  nextSeq : Word64
  deriving DecidableEq

namespace Ring

def new : Ring := ⟨Vector.replicate ringLen Crumb.empty,1⟩

def slot (seq : Word64) : Fin ringLen := ⟨seq.toNat%ringLen,Nat.mod_lt _ (by decide)⟩

/-- The number of the call, and the ring with it recorded. -/
def push (r : Ring) (id : Word64) (args : Vector Word64 argCount) : Word64 × Ring :=
  let seq := r.nextSeq
  (seq,⟨r.entries.set (slot seq) ⟨seq,id,args,0,false⟩,r.nextSeq+1⟩)

/-- An entry that was evicted meanwhile is left alone. -/
def complete (r : Ring) (seq ret : Word64) : Ring :=
  let c := r.entries.get (slot seq)
  if c.seq = seq then
    { r with entries := r.entries.set (slot seq) { c with ret := ret, returned := true } }
  else r

def iterOldestFirst (r : Ring) : List Crumb :=
  let start := max (r.nextSeq.toNat-ringLen) 1
  (List.range' start (r.nextSeq.toNat-start)).filterMap fun seq =>
    let c := r.entries.get (slot (BitVec.ofNat 64 seq))
    if c.seq = BitVec.ofNat 64 seq then some c else none

end Ring

/-- What the thread does to its ring. -/
inductive RingOp where
  | push (id : Word64) (args : Vector Word64 argCount)
  | complete (seq ret : Word64)
  deriving DecidableEq

def Ring.step (r : Ring) : RingOp → Ring
  | .push id args => (r.push id args).2
  | .complete seq ret => r.complete seq ret

def Ring.run (r : Ring) (ops : List RingOp) : Ring := ops.foldl Ring.step r

def RingOp.isPush : RingOp → Bool
  | push .. => true
  | complete .. => false

/-- A call as it shows: what was called, and what it returned, if it has. -/
structure Call where
  id : Word64
  args : Vector Word64 argCount
  ret : Option Word64
  deriving DecidableEq

def Crumb.call (c : Crumb) : Call := ⟨c.id,c.args,if c.returned then some c.ret else none⟩

/-- The number of the call pushed after `n` others. -/
def numberOf (n : ℕ) : Word64 := BitVec.ofNat 64 (n+1)

/-- The value of the latest completion of a call. -/
def latest (seq : Word64) (ops : List RingOp) : Option Word64 :=
  (ops.filterMap fun op => match op with
    | .complete seq' ret => if seq' = seq then some ret else none
    | .push .. => none).getLast?

/-- The calls of a run in push order, `n` calls having been pushed before it, each with the value
of its own latest completion since. -/
def calls : ℕ → List RingOp → List Call
  | _, [] => []
  | n, .push id args :: ops => ⟨id,args,latest (numberOf n) ops⟩ :: calls (n+1) ops
  | n, .complete _ _ :: ops => calls n ops

/-- The log of all calls, of which nothing is evicted. -/
def logStep (log : List Crumb) : RingOp → List Crumb
  | .push id args => log ++ [⟨numberOf log.length,id,args,0,false⟩]
  | .complete seq ret =>
      log.map fun c => if c.seq = seq then { c with ret := ret, returned := true } else c

/-- The entry with index `i` of the log lives in the slot of its number. -/
def place (i : ℕ) : Fin ringLen := Ring.slot (numberOf i)

/-- The ring holds the end of the log. -/
structure Shows (r : Ring) (log : List Crumb) : Prop where
  nextSeq : r.nextSeq = numberOf log.length
  numbered : ∀ (i : ℕ) (hi : i < log.length), log[i].seq = numberOf i
  keeps : Keeps ringLen place r.entries.get log

lemma place_val (i : ℕ) : (place i).val = (i+1)%ringLen := by
  simp only [place, Ring.slot, numberOf, BitVec.toNat_ofNat]
  exact Nat.mod_mod_of_dvd _ (by decide)

lemma spaced_place : Spaced ringLen place := by
  intro i j hij hj heq
  have hval := congrArg Fin.val heq
  rw [place_val, place_val] at hval
  unfold ringLen at hval hj
  omega

lemma get_set (v : Vector Crumb ringLen) (s t : Fin ringLen) (c : Crumb) :
    (v.set s c).get t = if t = s then c else v.get t := by
  simp only [Vector.get_eq_getElem, Vector.getElem_set, Fin.ext_iff, eq_comm]

lemma shows_new : Shows Ring.new [] := ⟨rfl,fun i hi => absurd hi (by simp),keeps_nil⟩

variable {r : Ring} {log : List Crumb}

lemma Shows.push (h : Shows r log) (id : Word64) (args : Vector Word64 argCount) :
    Shows (r.push id args).2 (logStep log (.push id args)) where
  nextSeq := by
    simp only [Ring.push, logStep, h.nextSeq, numberOf, List.length_append, List.length_singleton]
    exact (BitVec.ofNat_add _ _).symm
  numbered := by
    intro i hi
    simp only [logStep, List.length_append, List.length_singleton] at hi ⊢
    by_cases hlast : i = log.length
    · subst hlast
      rw [List.getElem_concat_length rfl]
    · rw [List.getElem_append_left (by omega)]
      exact h.numbered i (by omega)
  keeps := by
    have hslot : Ring.slot r.nextSeq = place log.length := congrArg Ring.slot h.nextSeq
    apply h.keeps.append spaced_place
    · simp only [Ring.push, hslot, get_set, if_true]
      rw [h.nextSeq]
    · intro s hs
      simp only [Ring.push, hslot, get_set, if_neg hs]

/-- A completion patches the entries of its number, and no other. -/
lemma Shows.complete (h : Shows r log) (seq ret : Word64) :
    Shows (r.complete seq ret) (logStep log (.complete seq ret)) where
  nextSeq := by
    simp only [Ring.complete, logStep, List.length_map, ← h.nextSeq]
    split_ifs <;> rfl
  numbered := by
    intro i hi
    simp only [logStep, List.length_map, List.getElem_map] at hi ⊢
    rw [← h.numbered i hi]
    split_ifs <;> rfl
  keeps := by
    apply h.keeps.map
    intro i hi hrecent
    have hentry := h.keeps i hi hrecent
    have hseq : (r.entries.get (place i)).seq = numberOf i := by
      rw [hentry]
      exact h.numbered i hi
    unfold Ring.complete
    by_cases hown : numberOf i = seq
    · have hslot : Ring.slot seq = place i := congrArg Ring.slot hown.symm
      simp only [hslot, hseq, hown, if_true, get_set]
    · rw [hseq, if_neg hown]
      dsimp only
      split_ifs with hpatch
      · -- the patched slot holds a crumb numbered `seq`, so it is not the one of this entry
        have hne : place i ≠ Ring.slot seq := by
          intro hslot
          rw [← hslot, hseq] at hpatch
          exact hown hpatch
        rw [get_set, if_neg hne]
      · rfl

lemma Shows.step (h : Shows r log) (op : RingOp) : Shows (r.step op) (logStep log op) := by
  cases op with
  | push id args => exact h.push id args
  | complete seq ret => exact h.complete seq ret

/-- Over a run the ring goes on showing the end of the log. -/
theorem Shows.run (h : Shows r log) (ops : List RingOp) : Shows (r.run ops) (ops.foldl logStep log) := by
  induction ops generalizing r log with
  | nil => exact h
  | cons op ops ih => exact ih (h.step op)

def pushes (ops : List RingOp) : ℕ := ops.countP RingOp.isPush

lemma length_logStep (log : List Crumb) (op : RingOp) :
    (logStep log op).length = log.length+pushes [op] := by
  cases op <;> simp [logStep, pushes, RingOp.isPush]

lemma length_log (log : List Crumb) (ops : List RingOp) :
    (ops.foldl logStep log).length = log.length+pushes ops := by
  induction ops generalizing log with
  | nil => simp [pushes]
  | cons op ops ih =>
    have hcons : pushes (op :: ops) = pushes [op]+pushes ops :=
      @List.countP_append _ _ [op] ops
    rw [List.foldl_cons, ih, length_logStep, hcons, add_assoc]

/-- A push hands out the number of the call. -/
lemma push_number (ops : List RingOp) (id : Word64) (args : Vector Word64 argCount) :
    ((Ring.new.run ops).push id args).1 = numberOf (pushes ops) := by
  have h := (shows_new.run ops).nextSeq
  rwa [length_log, List.length_nil, zero_add] at h

lemma latest_push (seq id : Word64) (args : Vector Word64 argCount) (ops : List RingOp) :
    latest seq (.push id args :: ops) = latest seq ops := by simp [latest]

lemma latest_complete (seq seq' ret : Word64) (ops : List RingOp) :
    latest seq (.complete seq' ret :: ops) =
      (latest seq ops).or (if seq' = seq then some ret else none) := by
  unfold latest
  by_cases h : seq' = seq
  · simp only [h, if_true, List.filterMap_cons, List.getLast?_cons]
    cases (ops.filterMap _).getLast? <;> rfl
  · simp [h]

/-- The log of a run: each call from before with the value of its latest completion in the run,
if there is one, then the calls of the run. -/
lemma log_calls (log : List Crumb) (ops : List RingOp) :
    (ops.foldl logStep log).map Crumb.call =
      (log.map fun c => { c.call with ret := (latest c.seq ops).or c.call.ret }) ++
        calls log.length ops := by
  induction ops generalizing log with
  | nil => simp [latest, calls]
  | cons op ops ih =>
    rw [List.foldl_cons, ih]
    cases op with
    | push id args =>
      simp [logStep, calls, latest_push, Crumb.call]
    | complete seq ret =>
      simp only [logStep, calls, List.map_map, List.length_map]
      congr 1
      apply List.map_congr_left
      intro c _
      simp only [Function.comp_apply, latest_complete]
      by_cases h : c.seq = seq
      · simp [h, Crumb.call]
      · simp [h, Ne.symm h]

/-- The calls of a run, as its log has them. -/
lemma calls_eq (ops : List RingOp) : calls 0 ops = (ops.foldl logStep []).map Crumb.call := by
  simp [log_calls]

/-- The counter has not wrapped, or its window has left the wrap behind. -/
def Counts (n : ℕ) : Prop := n+1 < 2^64 ∨ ringLen < (n+1)%2^64

lemma nextSeq_toNat (h : Shows r log) : r.nextSeq.toNat = (log.length+1)%2^64 := by
  rw [h.nextSeq, numberOf, BitVec.toNat_ofNat]

/-- The numbers that are read are those of the last entries, which their slots still hold. -/
lemma iterOldestFirst_eq (h : Shows r log) (hcounts : Counts log.length) :
    r.iterOldestFirst = log.rtake ringLen := by
  have hnext := nextSeq_toNat h
  unfold Ring.iterOldestFirst
  generalize r.nextSeq.toNat = m at hnext
  have hdiv := Nat.mod_add_div (log.length+1) (2^64)
  have hstart : max (m-ringLen) 1+2^64*((log.length+1)/2^64) = log.length-ringLen+1 := by
    unfold Counts ringLen at *
    omega
  have hcount : m-max (m-ringLen) 1 = min ringLen log.length := by
    unfold Counts ringLen at *
    omega
  dsimp only
  rw [hcount, ← h.keeps.read, List.range'_eq_map_range, List.range'_eq_map_range, List.filterMap_map,
    List.map_map, ← List.filterMap_eq_map]
  apply List.filterMap_congr
  intro t ht
  rw [List.mem_range] at ht
  generalize max (m-ringLen) 1 = start at hstart
  have hnumber : BitVec.ofNat 64 (start+t) = numberOf (log.length-ringLen+t) := by
    apply BitVec.eq_of_toNat_eq
    simp only [numberOf, BitVec.toNat_ofNat]
    omega
  have hlt : log.length-ringLen+t < log.length := by omega
  have hentry := h.keeps _ hlt (by omega)
  have hseq : (r.entries.get (place (log.length-ringLen+t))).seq = numberOf (log.length-ringLen+t) := by
    rw [hentry]
    exact h.numbered _ hlt
  simp only [Function.comp_apply, hnumber]
  exact if_pos hseq

/-- Right after a wrap fewer than `ringLen` numbers are read. -/
lemma length_iterOldestFirst_lt (h : Shows r log) (hcounts : ¬Counts log.length) :
    r.iterOldestFirst.length < (log.rtake ringLen).length := by
  have hnext := nextSeq_toNat h
  have hread : r.iterOldestFirst.length ≤ r.nextSeq.toNat-max (r.nextSeq.toNat-ringLen) 1 := by
    refine (List.length_filterMap_le _ _).trans ?_
    rw [List.length_range']
  have hlength : (log.rtake ringLen).length = log.length-(log.length-ringLen) := by
    simp [List.rtake]
  unfold Counts ringLen at *
  omega

/-- A push hands out the number of its call. The ring shows the last calls in push order, each
with the value of its own latest completion since its push, exactly when the counter has not
wrapped within the window. -/
theorem iterOldestFirst_run_iff (ops : List RingOp) :
    (∀ id args, ((Ring.new.run ops).push id args).1 = numberOf (pushes ops)) ∧
      ((Ring.new.run ops).iterOldestFirst.map Crumb.call = (calls 0 ops).rtake ringLen ↔
        Counts (pushes ops)) := by
  refine ⟨push_number ops,?_⟩
  have hshows := shows_new.run ops
  have hlength : (ops.foldl logStep []).length = pushes ops := by simp [length_log]
  rw [calls_eq]
  generalize ops.foldl logStep [] = log at hshows hlength
  have hmap : (log.map Crumb.call).rtake ringLen = (log.rtake ringLen).map Crumb.call := by
    simp [List.rtake]
  rw [hmap, ← hlength]
  constructor
  · intro heq
    by_contra hcounts
    have hlt := length_iterOldestFirst_lt hshows hcounts
    have hsame := congrArg List.length heq
    rw [List.length_map, List.length_map] at hsame
    omega
  · intro hcounts
    rw [iterOldestFirst_eq hshows hcounts]

lemma pushes_replicate (n : ℕ) (id : Word64) (args : Vector Word64 argCount) :
    pushes (List.replicate n (.push id args)) = n := by
  simp [pushes, RingOp.isPush, List.countP_replicate]

/-- After `2 ^ 64 - 1` pushes the counter is back at zero, and the ring shows nothing. -/
theorem not_shows_wrapped :
    let ops := List.replicate (2^64-1) (RingOp.push 7 (Vector.replicate argCount 0))
    (Ring.new.run ops).iterOldestFirst.map Crumb.call ≠ (calls 0 ops).rtake ringLen := by
  intro ops heq
  have hpushes : pushes ops = 2^64-1 := pushes_replicate _ _ _
  have hlength : (ops.foldl logStep []).length = 2^64-1 := by
    rw [length_log, List.length_nil, zero_add, hpushes]
  have hcounts : ¬Counts (ops.foldl logStep []).length := by
    rw [hlength]
    unfold Counts ringLen
    omega
  have hlt := length_iterOldestFirst_lt (shows_new.run ops) hcounts
  have hsame := congrArg List.length heq
  rw [calls_eq] at hsame
  simp only [List.rtake, List.length_map, List.length_drop] at hsame hlt
  omega

/-- A call that outlives its slot: its completion leaves the newer call alone. -/
example :
    let calls := (List.range 33).map fun i => RingOp.push (BitVec.ofNat 64 i) (Vector.replicate argCount 0)
    ((Ring.new.run (calls ++ [.complete 1 9,.complete 3 5])).iterOldestFirst.map fun c =>
      (c.id,c.call.ret)).take 2 = [(1,none),(2,some 5)] := by decide

end Unemups4.Breadcrumb

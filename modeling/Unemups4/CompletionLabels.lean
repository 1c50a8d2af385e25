import Unemups4.CacheMachine
import Unemups4.Transition

/-! The completion labels of a title that polls. The submitting thread withholds a label until
the grace has passed since the first one; a watchdog wakes a few times and then writes what was
withheld. The two share the list of withheld labels and nothing else. -/
namespace Unemups4.Gnm
open Transition (Reach)

/-- A label as an end-of-pipe or end-of-shader packet names it. -/
structure Label where
  addr : ℕ
  value : BitVec 64
  width : ℕ
  deriving DecidableEq, Repr

namespace Label

def storeWidth (l : Label) : ℕ := if l.width ≤ 4 then 4 else 8

def data (l : Label) : Bytes :=
  (List.range l.storeWidth).map fun i => UInt8.ofNat (l.value.toNat/256^i)

/-- Whether memory holds the value of the label. -/
def HeldBy (l : Label) (bytes : ℕ → UInt8) : Prop := bytesAt bytes l.addr l.storeWidth = l.data

/-- Two labels at different addresses share no byte. -/
def Apart (l l' : Label) : Prop :=
  l.addr = l'.addr ∨ l.addr+l.storeWidth ≤ l'.addr ∨ l'.addr+l'.storeWidth ≤ l.addr

end Label

inductive EmitPc where
  | idle
  | started (l : Label)
  | noted (l : Label)
  | writing (l : Label)
  | written (l : Label)
  | withheld (l : Label)
  | queued (l : Label)
  deriving DecidableEq, Repr

/-- The watchdog with the checks it has left, or the labels it has taken and not yet written. -/
inductive WatchPc where
  | off
  | asleep (left wake : ℕ)
  | taking (left : ℕ)
  | flushing (labels : List Label)
  | exited
  deriving DecidableEq, Repr

/-- Guest memory, the clock in milliseconds, the first submit, what is withheld and the two
threads; beside them the labels named so far. -/
structure LabelState where
  bytes : ℕ → UInt8
  clock : ℕ
  first : Option ℕ
  collected : Bool
  sync : Bool
  pending : List Label
  emitter : EmitPc
  watchdog : WatchPc
  named : List Label

inductive LabelAct where
  | pass (ms : ℕ)
  | emit (l : Label)
  | emitter
  | watchdog
  deriving DecidableEq, Repr

namespace LabelState

def labelWatchdogGrace : ℕ := 1000

def watchdogChecks : ℕ := 20

def watchdogSleep : ℕ := 250

variable (mapped : ℕ → ℕ → Bool) (s : LabelState)

def shouldWriteCompletionLabel : Bool :=
  !s.collected && match s.first with
    | some first => decide (labelWatchdogGrace ≤ s.clock-first)
    | none => false

def writeLabel (bytes : ℕ → UInt8) (l : Label) : ℕ → UInt8 :=
  if l.addr = 0 then bytes
  else if mapped l.addr l.width then Machine.writeAt bytes l.addr l.data
  else bytes

/-- A label withheld again takes the place of its older value. -/
def queue (l : Label) : List Label → List Label
  | [] => [l]
  | e :: es => if e.addr = l.addr then l :: es else e :: queue l es

/-- The watchdog goes to sleep with the checks it has left. -/
def rest (left : ℕ) : WatchPc :=
  match left with
  | 0 => .exited
  | left+1 => .asleep (left+1) (s.clock+watchdogSleep)

def emitterStep : Option LabelState :=
  match s.emitter with
  | .idle => none
  | .started l => some { s with first := s.first.or (some s.clock), emitter := .noted l }
  | .noted l => some { s with
      emitter := if s.sync ∨ s.shouldWriteCompletionLabel then .writing l else .withheld l }
  | .writing l => some { s with bytes := writeLabel mapped s.bytes l, emitter := .written l }
  | .written l => some { s with
      pending := s.pending.filter fun e => e.addr ≠ l.addr, emitter := .idle }
  | .withheld l => some { s with pending := queue l s.pending, emitter := .queued l }
  | .queued _ => some { s with
      watchdog := if s.watchdog = .off then s.rest watchdogChecks else s.watchdog, emitter := .idle }

def watchdogStep : Option LabelState :=
  match s.watchdog with
  | .off | .exited => none
  | .asleep left wake =>
      if s.clock < wake then none
      else if s.collected then some { s with watchdog := .exited }
      else if s.shouldWriteCompletionLabel then some { s with watchdog := .taking left }
      else some { s with watchdog := s.rest (left-1) }
  | .taking left =>
      if s.pending = [] then some { s with watchdog := s.rest (left-1) }
      else some { s with pending := [], watchdog := .flushing s.pending }
  | .flushing [] => some { s with watchdog := .exited }
  | .flushing (l :: labels) =>
      some { s with bytes := writeLabel mapped s.bytes l, watchdog := .flushing labels }

def step : LabelAct → Option LabelState
  | .pass ms => some { s with clock := s.clock+ms }
  | .emit l =>
      if s.emitter = .idle then some { s with emitter := .started l, named := s.named ++ [l] } else none
  | .emitter => s.emitterStep mapped
  | .watchdog => s.watchdogStep mapped

/-- Before the first packet; nothing was ever collected from an event queue. -/
def Initial (s : LabelState) : Prop :=
  s.collected = false ∧ s.first = none ∧ s.pending = [] ∧ s.emitter = .idle ∧ s.watchdog = .off ∧
    s.named = []

/-- A packet names a mapped label that shares no byte with another. -/
def Lawful (s : LabelState) : LabelAct → Prop
  | .emit l => l.addr ≠ 0 ∧ mapped l.addr l.width ∧ ∀ e ∈ s.named, l.Apart e
  | _ => True

def Finished (s : LabelState) : Prop :=
  s.emitter = .idle ∧ (s.watchdog = .off ∨ s.watchdog = .exited)

def lastNamed (s : LabelState) (addr : ℕ) : Option Label :=
  (s.named.filter fun l => l.addr = addr).getLast?

/-- Each label named holds the value of the last packet that named it. -/
def Fresh (s : LabelState) : Prop := ∀ addr l, s.lastNamed addr = some l → l.HeldBy s.bytes

/-- The labels that the watchdog has taken and not yet written. -/
def taken : List Label :=
  match s.watchdog with
  | .flushing labels => labels
  | _ => []

/-- The watchdog may still take what is withheld. -/
def Watching (s : LabelState) : Prop :=
  match s.watchdog with
  | .off | .asleep _ _ | .taking _ => True
  | .flushing _ | .exited => False

/-- No label is written at once while the watchdog is about to write an older value, none is
withheld after the watchdog took the list or left, and the list is not taken between a write
and the end of the older value it withheld. -/
def Careful (s : LabelState) : LabelAct → Prop
  | .emitter =>
      match s.emitter with
      | .writing l => ∀ e ∈ s.taken, e.addr ≠ l.addr
      | .withheld _ => s.Watching
      | _ => True
  | .watchdog =>
      match s.watchdog, s.emitter with
      | .taking _, .written l => ∀ e ∈ s.pending, e.addr ≠ l.addr
      | _, _ => True
  | _ => True

/-- The watchdog's checks against the clock: the last of them comes after the grace. -/
structure Timed (s : LabelState) : Prop where
  collected : s.collected = false
  first_le : ∀ first, s.first = some first → first ≤ s.clock
  began : s.first = none → s.watchdog = .off ∧ (s.emitter = .idle ∨ ∃ l, s.emitter = .started l)
  asleep : ∀ left wake, s.watchdog = .asleep left wake → 1 ≤ left ∧ left ≤ watchdogChecks ∧
    ∀ first, s.first = some first → first+(watchdogChecks+1-left)*watchdogSleep ≤ wake
  taking : ∀ left, s.watchdog = .taking left → 1 ≤ left ∧ left ≤ watchdogChecks ∧
    ∀ first, s.first = some first → first+(watchdogChecks+1-left)*watchdogSleep ≤ s.clock

variable {mapped s} {s' : LabelState} {act : LabelAct}

/-- The sleep after a check. -/
lemma timed_rest {left first : ℕ} (h1 : 1 ≤ left) (h20 : left ≤ watchdogChecks)
    (hfirst : first+(watchdogChecks+1-left)*watchdogSleep ≤ s.clock) {left' wake : ℕ}
    (h : s.rest (left-1) = .asleep left' wake) : 1 ≤ left' ∧ left' ≤ watchdogChecks ∧
      first+(watchdogChecks+1-left')*watchdogSleep ≤ wake := by
  obtain ⟨n,rfl⟩ : ∃ n, left = n+1 := ⟨left-1,by omega⟩
  cases n with
  | zero => simp [rest] at h
  | succ n =>
    obtain ⟨rfl,rfl⟩ : n+1 = left' ∧ s.clock+watchdogSleep = wake := by simpa [rest] using h
    simp only [watchdogChecks, watchdogSleep] at *
    omega

lemma rest_ne_taking {left n : ℕ} : s.rest left ≠ .taking n := by
  cases left <;> simp [rest]

lemma rest_ne_off {left : ℕ} : s.rest left ≠ .off := by
  cases left <;> simp [rest]

lemma timed_emitter (ht : Timed s) (h : s.emitterStep mapped = some s') : Timed s' := by
  obtain ⟨hcollected,hle,hbegan,hasleep,htaking⟩ := ht
  have hstarted (hpc : s.emitter ≠ .idle) (hpc' : ∀ l, s.emitter ≠ .started l) : s.first ≠ none := by
    intro hnone
    rcases (hbegan hnone).2 with hidle | ⟨l,hl⟩
    · exact hpc hidle
    · exact hpc' l hl
  cases hpc : s.emitter <;> simp only [emitterStep, hpc, reduceCtorEq, Option.some.injEq] at h <;>
    subst h
  case started l =>
    cases hfirst : s.first with
    | none =>
      have hoff := (hbegan hfirst).1
      exact ⟨hcollected,by simp,by simp,by simp [hoff],by simp [hoff]⟩
    | some first =>
      refine ⟨hcollected,by simpa [hfirst] using hle,by simp,?_,?_⟩
      · simpa [hfirst] using hasleep
      · simpa [hfirst] using htaking
  case queued l =>
    have hne := hstarted (by simp [hpc]) (by simp [hpc])
    obtain ⟨first,hfirst⟩ := Option.ne_none_iff_exists'.mp hne
    have hclock := hle first hfirst
    refine ⟨hcollected,hle,fun hnone => absurd hnone hne,?_,?_⟩
    · intro left wake hw
      split_ifs at hw with hoff
      · obtain ⟨rfl,rfl⟩ : watchdogChecks = left ∧ s.clock+watchdogSleep = wake := by
          simpa [rest, watchdogChecks] using hw
        refine ⟨by decide,le_refl _,fun first' hfirst' => ?_⟩
        have hle' := hle first' hfirst'
        simp only [watchdogChecks, watchdogSleep]
        omega
      · exact hasleep left wake hw
    · intro left hw
      split_ifs at hw with hoff
      · exact absurd (show s.rest watchdogChecks = .taking left from hw) rest_ne_taking
      · exact htaking left hw
  all_goals
    have hne := hstarted (by simp [hpc]) (by simp [hpc])
    exact ⟨hcollected,hle,fun hnone => absurd hnone hne,hasleep,htaking⟩

lemma timed_watchdog (ht : Timed s) (h : s.watchdogStep mapped = some s') : Timed s' := by
  obtain ⟨hcollected,hle,hbegan,hasleep,htaking⟩ := ht
  have hne (hpc : s.watchdog ≠ .off) : s.first ≠ none := fun hnone => hpc (hbegan hnone).1
  have hrest {left : ℕ} (hpc : s.watchdog ≠ .off) (h1 : 1 ≤ left) (h20 : left ≤ watchdogChecks)
      (hfirst : ∀ first, s.first = some first →
        first+(watchdogChecks+1-left)*watchdogSleep ≤ s.clock) :
      Timed { s with watchdog := s.rest (left-1) } := by
    refine ⟨hcollected,hle,fun hnone => absurd hnone (hne hpc),?_,fun n hn => absurd hn rest_ne_taking⟩
    intro left' wake hw
    obtain ⟨first,hsome⟩ := Option.ne_none_iff_exists'.mp (hne hpc)
    obtain ⟨hlow,hhigh,-⟩ := timed_rest h1 h20 (hfirst first hsome) hw
    exact ⟨hlow,hhigh,fun first' hfirst' => (timed_rest h1 h20 (hfirst first' hfirst') hw).2.2⟩
  cases hpc : s.watchdog with
  | off => simp [watchdogStep, hpc] at h
  | exited => simp [watchdogStep, hpc] at h
  | asleep left wake =>
    obtain ⟨h1,h20,hfirst⟩ := hasleep left wake hpc
    simp only [watchdogStep, hpc] at h
    split_ifs at h with hwake hcollect hgrace <;> cases h
    · rw [hcollected] at hcollect
      cases hcollect
    · refine ⟨hcollected,hle,fun hnone => absurd hnone (hne (by simp [hpc])),by simp,?_⟩
      intro left' hw
      obtain rfl : left = left' := by simpa using hw
      exact ⟨h1,h20,fun first hsome => (hfirst first hsome).trans (not_lt.mp hwake)⟩
    · exact hrest (by simp [hpc]) h1 h20 fun first hsome =>
        (hfirst first hsome).trans (not_lt.mp hwake)
  | taking left =>
    obtain ⟨h1,h20,hfirst⟩ := htaking left hpc
    simp only [watchdogStep, hpc] at h
    split_ifs at h <;> cases h
    · exact hrest (by simp [hpc]) h1 h20 hfirst
    · exact ⟨hcollected,hle,fun hnone => absurd hnone (hne (by simp [hpc])),by simp,by simp⟩
  | flushing labels =>
    cases labels <;> simp only [watchdogStep, hpc, Option.some.injEq] at h <;> subst h
    · exact ⟨hcollected,hle,fun hnone => absurd hnone (hne (by simp [hpc])),by simp,by simp⟩
    · exact ⟨hcollected,hle,fun hnone => absurd hnone (hne (by simp [hpc])),by simp,by simp⟩

lemma timed_step (ht : Timed s) (h : s.step mapped act = some s') : Timed s' := by
  cases act with
  | emitter => exact timed_emitter ht h
  | watchdog => exact timed_watchdog ht h
  | pass ms =>
    obtain ⟨hcollected,hle,hbegan,hasleep,htaking⟩ := ht
    cases h
    refine ⟨hcollected,fun first hfirst => (hle first hfirst).trans (Nat.le_add_right ..),hbegan,
      hasleep,fun left hleft => ?_⟩
    obtain ⟨h1,h20,hfirst⟩ := htaking left hleft
    exact ⟨h1,h20,fun first hsome => (hfirst first hsome).trans (Nat.le_add_right ..)⟩
  | emit l =>
    obtain ⟨hcollected,hle,hbegan,hasleep,htaking⟩ := ht
    simp only [step] at h
    split_ifs at h
    cases h
    exact ⟨hcollected,hle,fun hnone => ⟨(hbegan hnone).1,.inr ⟨l,rfl⟩⟩,hasleep,htaking⟩

/-- At the last check the grace has passed. -/
lemma Timed.grace (ht : Timed s) {wake : ℕ} (hpc : s.watchdog = .asleep 1 wake) (hwake : wake ≤ s.clock) :
    s.shouldWriteCompletionLabel := by
  have hne : s.first ≠ none := by
    intro hnone
    rw [(ht.began hnone).1] at hpc
    cases hpc
  obtain ⟨first,hfirst⟩ := Option.ne_none_iff_exists'.mp hne
  have hlate := (ht.asleep 1 wake hpc).2.2 first hfirst
  simp only [watchdogChecks, watchdogSleep] at hlate
  have hpassed : labelWatchdogGrace ≤ s.clock-first := by
    simp only [labelWatchdogGrace]
    omega
  simp [shouldWriteCompletionLabel, ht.collected, hfirst, hpassed]

lemma mem_queue {l e : Label} {pending : List Label} (h : e ∈ queue l pending) : e = l ∨ e ∈ pending := by
  induction pending with
  | nil => exact .inl (List.mem_singleton.mp h)
  | cons e' pending ih =>
    unfold queue at h
    split_ifs at h with haddr
    · rcases List.mem_cons.mp h with rfl | h
      · exact .inl rfl
      · exact .inr (List.mem_cons_of_mem _ h)
    · rcases List.mem_cons.mp h with rfl | h
      · exact .inr List.mem_cons_self
      · exact (ih h).imp_right (List.mem_cons_of_mem _)

lemma self_mem_queue (l : Label) (pending : List Label) : l ∈ queue l pending := by
  induction pending with
  | nil => exact List.mem_singleton_self l
  | cons e pending ih =>
    unfold queue
    split_ifs
    · exact List.mem_cons_self
    · exact List.mem_cons_of_mem _ ih

lemma mem_queue_of_ne {l e : Label} {pending : List Label} (h : e ∈ pending) (hne : e.addr ≠ l.addr) :
    e ∈ queue l pending := by
  induction pending with
  | nil => cases h
  | cons e' pending ih =>
    unfold queue
    split_ifs with haddr
    · rcases List.mem_cons.mp h with rfl | h
      · exact absurd haddr hne
      · exact List.mem_cons_of_mem _ h
    · rcases List.mem_cons.mp h with rfl | h
      · exact List.mem_cons_self
      · exact List.mem_cons_of_mem _ (ih h)

/-- The list holds one value for each address. -/
def Distinct (pending : List Label) : Prop := pending.Pairwise fun e e' => e.addr ≠ e'.addr

lemma Distinct.queue {pending : List Label} (h : Distinct pending) (l : Label) :
    Distinct (queue l pending) ∧ ∀ e ∈ queue l pending, e.addr = l.addr → e = l := by
  induction pending with
  | nil =>
    refine ⟨List.pairwise_singleton _ _,fun e he _ => List.mem_singleton.mp he⟩
  | cons e pending ih =>
    obtain ⟨hhead,htail⟩ := List.pairwise_cons.mp h
    obtain ⟨hdistinct,hsame⟩ := ih htail
    unfold LabelState.queue
    split_ifs with haddr
    · refine ⟨List.pairwise_cons.mpr ⟨fun e' he' => haddr ▸ hhead e' he',htail⟩,?_⟩
      intro e' he' haddr'
      rcases List.mem_cons.mp he' with rfl | he'
      · rfl
      · exact absurd (haddr.trans haddr'.symm) (hhead e' he')
    · refine ⟨List.pairwise_cons.mpr ⟨fun e' he' => ?_,hdistinct⟩,?_⟩
      · rcases mem_queue he' with rfl | he'
        · exact haddr
        · exact hhead e' he'
      · intro e' he' haddr'
        rcases List.mem_cons.mp he' with rfl | he'
        · exact absurd haddr' haddr
        · exact hsame e' he' haddr'

section Memory

variable {bytes : ℕ → UInt8} {l e : Label}

lemma writeLabel_eq (haddr : l.addr ≠ 0) (hmapped : mapped l.addr l.width) :
    writeLabel mapped bytes l = Machine.writeAt bytes l.addr l.data := by
  rw [writeLabel, if_neg haddr, if_pos hmapped]

lemma heldBy_writeLabel (haddr : l.addr ≠ 0) (hmapped : mapped l.addr l.width) :
    l.HeldBy (writeLabel mapped bytes l) := by
  rw [writeLabel_eq haddr hmapped]
  refine List.ext_getElem (by simp [bytesAt, Label.data]) fun i hi hi' => ?_
  simp [bytesAt, Machine.writeAt, hi']

lemma heldBy_writeLabel_other (h : e.HeldBy bytes) (hapart : e.Apart l) (hne : e.addr ≠ l.addr) :
    e.HeldBy (writeLabel mapped bytes l) := by
  unfold writeLabel
  split_ifs
  · exact h
  · have hlen : l.data.length = l.storeWidth := by simp [Label.data]
    refine (Machine.bytesAt_writeAt_spared fun i hi hlow => ?_).trans h
    rcases hapart with heq | hbelow | habove
    · exact absurd heq hne
    · omega
    · omega
  · exact h

end Memory

end LabelState

namespace EmitPc

/-- The label of the packet in hand. -/
def label : EmitPc → Option Label
  | idle => none
  | started l | noted l | writing l | written l | withheld l | queued l => some l

/-- The label of a packet that has neither been written nor withheld. -/
def ahead : EmitPc → Option Label
  | started l | noted l | writing l | withheld l => some l
  | _ => none

end EmitPc

namespace LabelState

variable {mapped : ℕ → ℕ → Bool} {s s' : LabelState} {act : LabelAct}

/-- What is known of a label named last: its packet is still in hand, or its value is in memory
or on the way there and no other is. -/
def Settled (s : LabelState) (l : Label) : Prop :=
  (∃ e, s.emitter.ahead = some e ∧ e.addr = l.addr) ∨
  (∃ e, s.emitter = .written e ∧ e.addr = l.addr ∧ l.HeldBy s.bytes ∧ ∀ e ∈ s.taken, e.addr ≠ l.addr) ∨
  (∀ e, s.emitter = .written e → e.addr ≠ l.addr) ∧
    (∀ e ∈ s.pending ++ s.taken, e.addr = l.addr → e = l) ∧
    (l.HeldBy s.bytes ∨ l ∈ s.pending ++ s.taken)

/-- What holds of every run that is careful: what is withheld or taken was named, one value for
each address is withheld and none once the watchdog took the list, and the labels are settled. -/
structure Kept (mapped : ℕ → ℕ → Bool) (s : LabelState) : Prop where
  lawful : ∀ l ∈ s.named, l.addr ≠ 0 ∧ mapped l.addr l.width
  apart : ∀ l ∈ s.named, ∀ e ∈ s.named, l.Apart e
  known : ∀ e ∈ s.pending ++ s.taken, e ∈ s.named
  distinct : Distinct s.pending
  current : ∀ l, s.emitter.label = some l → s.lastNamed l.addr = some l
  drained : ¬s.Watching → s.pending = []
  unarmed : s.watchdog = .off → s.pending = [] ∨ ∃ l, s.emitter = .queued l
  settled : ∀ addr l, s.lastNamed addr = some l → Settled s l

lemma mem_of_lastNamed {addr : ℕ} {l : Label} (h : s.lastNamed addr = some l) :
    l ∈ s.named ∧ l.addr = addr := by
  have hmem := List.mem_of_getLast? h
  simpa using hmem

lemma lastNamed_emit (named : List Label) (l : Label) (addr : ℕ) :
    ((named ++ [l]).filter fun e => e.addr = addr).getLast? =
      if l.addr = addr then some l else (named.filter fun e => e.addr = addr).getLast? := by
  rw [List.filter_append]
  split_ifs with haddr
  · simp [haddr]
  · simp [haddr]

lemma Kept.emit (hk : Kept mapped s) {l : Label} (hidle : s.emitter = .idle)
    (hlawful : l.addr ≠ 0 ∧ mapped l.addr l.width ∧ ∀ e ∈ s.named, l.Apart e) :
    Kept mapped { s with emitter := .started l, named := s.named ++ [l] } := by
  obtain ⟨haddr,hmapped,hapart⟩ := hlawful
  have hself : l.Apart l := .inl rfl
  have hsymm {e e' : Label} (h : e.Apart e') : e'.Apart e := by
    rcases h with h | h | h
    · exact .inl h.symm
    · exact .inr (.inr h)
    · exact .inr (.inl h)
  refine ⟨?_,?_,fun e he => List.mem_append_left _ (hk.known e he),hk.distinct,?_,hk.drained,?_,?_⟩
  · intro e he
    rcases List.mem_append.mp he with he | he
    · exact hk.lawful e he
    · exact List.mem_singleton.mp he ▸ ⟨haddr,hmapped⟩
  · intro e he e' he'
    rcases List.mem_append.mp he with he | he <;> rcases List.mem_append.mp he' with he' | he'
    · exact hk.apart e he e' he'
    · exact List.mem_singleton.mp he' ▸ hsymm (hapart e he)
    · exact List.mem_singleton.mp he ▸ hapart e' he'
    · rw [List.mem_singleton.mp he, List.mem_singleton.mp he']
      exact hself
  · intro e he
    obtain rfl : l = e := by simpa [EmitPc.label] using he
    exact (lastNamed_emit s.named l l.addr).trans (if_pos rfl)
  · intro hoff
    refine .inl ((hk.unarmed hoff).resolve_right ?_)
    rintro ⟨e,he⟩
    rw [hidle] at he
    cases he
  · intro addr e he
    replace he := (lastNamed_emit s.named l addr).symm.trans he
    split_ifs at he with hl
    · exact .inl ⟨l,rfl,by rw [Option.some.inj he]⟩
    · rcases hk.settled addr e he with ⟨e',he',-⟩ | ⟨e',he',-⟩ | hsettled
      · rw [hidle] at he'
        cases he'
      · rw [hidle] at he'
        cases he'
      · exact .inr (.inr ⟨by simp,hsettled.2⟩)

/-- The packet in hand is still ahead of its write. -/
lemma Kept.turn (hk : Kept mapped s) {l : Label} {pc : EmitPc} {first : Option ℕ}
    (hahead : s.emitter.ahead = some l) (hahead' : pc.ahead = some l)
    (hlabel : pc.label = s.emitter.label) :
    Kept mapped { s with first := first, emitter := pc } := by
  refine ⟨hk.lawful,hk.apart,hk.known,hk.distinct,fun e he => hk.current e (hlabel ▸ he),hk.drained,?_,?_⟩
  · intro hoff
    refine .inl ((hk.unarmed hoff).resolve_right ?_)
    rintro ⟨e,he⟩
    rw [he] at hahead
    cases hahead
  · intro addr e he
    rcases hk.settled addr e he with ⟨e',he',haddr⟩ | ⟨e',he',-⟩ | hsettled
    · exact .inl ⟨l,hahead',by rw [hahead] at he'; rw [Option.some.inj he', haddr]⟩
    · rw [he'] at hahead
      cases hahead
    · refine .inr (.inr ⟨fun e' he' => ?_,hsettled.2⟩)
      obtain rfl : pc = .written e' := he'
      cases hahead'

/-- A label written at once: no older value of it is on the way but the one withheld. -/
lemma Kept.write (hk : Kept mapped s) {l : Label} (hpc : s.emitter = .writing l)
    (htaken : ∀ e ∈ s.taken, e.addr ≠ l.addr) :
    Kept mapped { s with bytes := writeLabel mapped s.bytes l, emitter := .written l } := by
  have hlast := hk.current l (by rw [hpc]; rfl)
  obtain ⟨hmem,-⟩ := mem_of_lastNamed hlast
  obtain ⟨haddr,hmapped⟩ := hk.lawful l hmem
  refine ⟨hk.lawful,hk.apart,hk.known,hk.distinct,?_,hk.drained,?_,?_⟩
  · intro e he
    obtain rfl : l = e := by simpa [EmitPc.label] using he
    exact hlast
  · intro hoff
    refine .inl ((hk.unarmed hoff).resolve_right ?_)
    rintro ⟨e,he⟩
    rw [hpc] at he
    cases he
  · intro addr e he
    obtain ⟨hmem',rfl⟩ := mem_of_lastNamed he
    by_cases heq : e.addr = l.addr
    · obtain rfl : e = l := Option.some.inj ((heq ▸ he : s.lastNamed l.addr = some e).symm.trans hlast)
      exact .inr (.inl ⟨e,rfl,rfl,heldBy_writeLabel haddr hmapped,htaken⟩)
    · rcases hk.settled _ e he with ⟨e',he',haddr'⟩ | ⟨e',he',-⟩ | ⟨-,hsame,hvalue⟩
      · rw [hpc] at he'
        obtain rfl := Option.some.inj he'
        exact absurd haddr'.symm heq
      · rw [hpc] at he'
        cases he'
      · refine .inr (.inr ⟨?_,hsame,hvalue.imp_left fun hheld => ?_⟩)
        · rintro e' ⟨⟩
          exact Ne.symm heq
        · exact heldBy_writeLabel_other hheld (hk.apart e hmem' l hmem) heq

/-- The older value that was withheld goes. -/
lemma Kept.retain (hk : Kept mapped s) {l : Label} (hpc : s.emitter = .written l) :
    Kept mapped { s with
      pending := s.pending.filter fun e => e.addr ≠ l.addr, emitter := .idle } := by
  have hsub {e : Label} (he : e ∈ s.pending.filter fun e => e.addr ≠ l.addr) :
      e ∈ s.pending ∧ e.addr ≠ l.addr := by simpa using he
  refine ⟨hk.lawful,hk.apart,?_,hk.distinct.filter _,fun e he => (by cases he),?_,?_,?_⟩
  · intro e he
    refine hk.known e ?_
    rcases List.mem_append.mp he with he | he
    · exact List.mem_append_left _ (hsub he).1
    · exact List.mem_append_right _ he
  · intro hw
    have hnil := hk.drained hw
    simp [hnil]
  · intro hoff
    have hnil := (hk.unarmed hoff).resolve_right (by rintro ⟨e,he⟩; rw [hpc] at he; cases he)
    exact .inl (by simp [hnil])
  · intro addr e he
    rcases hk.settled addr e he with ⟨e',he',-⟩ | ⟨e',he',haddr,hheld,htaken⟩ | ⟨hfree,hsame,hvalue⟩
    · rw [hpc] at he'
      cases he'
    · rw [hpc] at he'
      obtain rfl : l = e' := by simpa using he'
      refine .inr (.inr ⟨by simp,fun e'' he'' haddr'' => ?_,.inl hheld⟩)
      rcases List.mem_append.mp he'' with he'' | he''
      · exact absurd (haddr''.trans haddr.symm) (hsub he'').2
      · exact absurd haddr'' (htaken e'' he'')
    · have hne : e.addr ≠ l.addr := (hfree l hpc).symm
      refine .inr (.inr ⟨by simp,fun e'' he'' haddr'' => hsame e'' ?_ haddr'',?_⟩)
      · rcases List.mem_append.mp he'' with he'' | he''
        · exact List.mem_append_left _ (hsub he'').1
        · exact List.mem_append_right _ he''
      · refine hvalue.imp_right fun hmem => ?_
        rcases List.mem_append.mp hmem with hmem | hmem
        · exact List.mem_append_left _ (by simpa using ⟨hmem,hne⟩)
        · exact List.mem_append_right _ hmem

lemma Watching.taken (h : s.Watching) : s.taken = [] := by
  unfold Watching at h
  unfold LabelState.taken
  split
  · next labels hw => rw [hw] at h; exact h.elim
  · rfl

lemma Kept.withhold (hk : Kept mapped s) {l : Label} (hpc : s.emitter = .withheld l)
    (hwatching : s.Watching) :
    Kept mapped { s with pending := queue l s.pending, emitter := .queued l } := by
  have hlast := hk.current l (by rw [hpc]; rfl)
  obtain ⟨hmem,-⟩ := mem_of_lastNamed hlast
  obtain ⟨hdistinct,hsame⟩ := hk.distinct.queue l
  have htaken : s.taken = [] := hwatching.taken
  have hout : queue l s.pending ++ s.taken = queue l s.pending := by rw [htaken, List.append_nil]
  refine ⟨hk.lawful,hk.apart,?_,hdistinct,?_,fun hw => absurd hwatching hw,fun _ => .inr ⟨l,rfl⟩,?_⟩
  · intro e he
    replace he : e ∈ queue l s.pending ++ s.taken := he
    rw [hout] at he
    rcases mem_queue he with rfl | he
    · exact hmem
    · exact hk.known e (List.mem_append_left _ he)
  · intro e he
    obtain rfl : l = e := by simpa [EmitPc.label] using he
    exact hlast
  · intro addr e he
    obtain ⟨-,rfl⟩ := mem_of_lastNamed he
    refine .inr (.inr ⟨by simp,?_⟩)
    change (∀ e' ∈ queue l s.pending ++ s.taken, _) ∧ (_ ∨ e ∈ queue l s.pending ++ s.taken)
    rw [hout]
    by_cases heq : e.addr = l.addr
    · obtain rfl : e = l := Option.some.inj ((heq ▸ he : s.lastNamed l.addr = some e).symm.trans hlast)
      exact ⟨hsame,.inr (self_mem_queue e s.pending)⟩
    · rcases hk.settled _ e he with ⟨e',he',haddr⟩ | ⟨e',he',-⟩ | ⟨-,honly,hvalue⟩
      · rw [hpc] at he'
        obtain rfl := Option.some.inj he'
        exact absurd haddr.symm heq
      · rw [hpc] at he'
        cases he'
      · refine ⟨fun e' he' haddr => ?_,hvalue.imp_right fun hmem' => ?_⟩
        · rcases mem_queue he' with rfl | he'
          · exact absurd haddr.symm heq
          · exact honly e' (List.mem_append_left _ he') haddr
        · rw [htaken, List.append_nil] at hmem'
          exact mem_queue_of_ne hmem' heq

/-- The watchdog moves on without a label, and leaves only when none is withheld. -/
lemma Kept.doze (hk : Kept mapped s) {watchdog : WatchPc} {emitter : EmitPc}
    (hemitter : emitter = s.emitter ∨ emitter = .idle ∧ ∃ l, s.emitter = .queued l)
    (hoff : watchdog ≠ .off) (htaken : ({ s with watchdog := watchdog } : LabelState).taken = s.taken)
    (hdrained : ¬({ s with watchdog := watchdog } : LabelState).Watching → s.pending = []) :
    Kept mapped { s with watchdog := watchdog, emitter := emitter } := by
  have hout : s.pending ++ ({ s with watchdog := watchdog, emitter := emitter } : LabelState).taken =
      s.pending ++ s.taken := congrArg (s.pending ++ ·) htaken
  refine ⟨hk.lawful,hk.apart,fun e he => hk.known e (hout ▸ he),hk.distinct,?_,hdrained,
    fun h => absurd h hoff,?_⟩
  · intro e he
    rcases hemitter with rfl | ⟨rfl,-⟩
    · exact hk.current e he
    · cases he
  · intro addr e he
    have hsettled := hk.settled addr e he
    rcases hemitter with rfl | ⟨rfl,l,hpc⟩
    · rcases hsettled with hahead | ⟨e',he',haddr,hheld,hfree⟩ | ⟨hfree,hrest⟩
      · exact .inl hahead
      · exact .inr (.inl ⟨e',he',haddr,hheld,fun e'' he'' => hfree e'' (htaken ▸ he'')⟩)
      · exact .inr (.inr ⟨hfree,hout ▸ hrest⟩)
    · rcases hsettled with ⟨e',he',-⟩ | ⟨e',he',-⟩ | ⟨-,hrest⟩
      · rw [hpc] at he'
        cases he'
      · rw [hpc] at he'
        cases he'
      · exact .inr (.inr ⟨by simp,hout ▸ hrest⟩)

/-- The watchdog takes the list. -/
lemma Kept.take (hk : Kept mapped s) {left : ℕ} (hpc : s.watchdog = .taking left)
    (hwritten : ∀ l, s.emitter = .written l → ∀ e ∈ s.pending, e.addr ≠ l.addr) :
    Kept mapped { s with pending := [], watchdog := .flushing s.pending } := by
  have htaken : s.taken = [] := by simp [taken, hpc]
  have hout : [] ++ s.pending = s.pending ++ s.taken := by rw [htaken, List.append_nil]; rfl
  refine ⟨hk.lawful,hk.apart,fun e he => hk.known e (hout ▸ he),List.Pairwise.nil,hk.current,
    fun _ => rfl,by simp,?_⟩
  intro addr e he
  rcases hk.settled addr e he with hahead | ⟨e',he',haddr,hheld,-⟩ | ⟨hfree,hrest⟩
  · exact .inl hahead
  · exact .inr (.inl ⟨e',he',haddr,hheld,fun e'' he'' => haddr ▸ hwritten e' he' e'' he''⟩)
  · exact .inr (.inr ⟨hfree,hout ▸ hrest⟩)

/-- The watchdog writes one of the labels it took. -/
lemma Kept.flush (hk : Kept mapped s) {l : Label} {labels : List Label}
    (hpc : s.watchdog = .flushing (l :: labels)) :
    Kept mapped { s with bytes := writeLabel mapped s.bytes l, watchdog := .flushing labels } := by
  have htaken : s.taken = l :: labels := by simp [taken, hpc]
  have hmem : l ∈ s.pending ++ s.taken := by simp [htaken]
  have hnamed := hk.known l hmem
  obtain ⟨haddr,hmapped⟩ := hk.lawful l hnamed
  have hsub {e : Label} (he : e ∈ s.pending ++ labels) : e ∈ s.pending ++ s.taken := by
    rw [htaken]
    rcases List.mem_append.mp he with he | he
    · exact List.mem_append_left _ he
    · exact List.mem_append_right _ (List.mem_cons_of_mem _ he)
  have hnil := hk.drained (by simp [Watching, hpc])
  refine ⟨hk.lawful,hk.apart,fun e he => hk.known e (hsub he),hk.distinct,hk.current,
    fun _ => hnil,by simp,?_⟩
  intro addr e he
  obtain ⟨hmem',rfl⟩ := mem_of_lastNamed he
  rcases hk.settled _ e he with hahead | ⟨e',he',haddr',hheld,hfree⟩ | ⟨hfree,honly,hvalue⟩
  · exact .inl hahead
  · have hne : e.addr ≠ l.addr := (hfree l (by simp [htaken])).symm
    refine .inr (.inl ⟨e',he',haddr',?_,fun e'' he'' => hfree e'' ?_⟩)
    · exact heldBy_writeLabel_other hheld (hk.apart e hmem' l hnamed) hne
    · rw [htaken]
      exact List.mem_cons_of_mem _ he''
  · refine .inr (.inr ⟨hfree,fun e'' he'' => honly e'' (hsub he''),?_⟩)
    by_cases heq : e.addr = l.addr
    · obtain rfl := honly l hmem heq.symm
      exact .inl (heldBy_writeLabel haddr hmapped)
    · refine hvalue.imp (fun hheld => ?_) fun hmem'' => ?_
      · exact heldBy_writeLabel_other hheld (hk.apart e hmem' l hnamed) heq
      · rw [htaken] at hmem''
        rcases List.mem_append.mp hmem'' with hin | hin
        · exact List.mem_append_left _ hin
        · rcases List.mem_cons.mp hin with rfl | hin
          · exact absurd rfl heq
          · exact List.mem_append_right _ hin

lemma taken_rest (left : ℕ) : ({ s with watchdog := s.rest left } : LabelState).taken = [] := by
  cases left <;> rfl

/-- The watchdog rests after its last check only when it leaves. -/
lemma rest_watching {left : ℕ} (h : ¬({ s with watchdog := s.rest left } : LabelState).Watching) :
    left = 0 := by
  cases left with
  | zero => rfl
  | succ left => exact absurd trivial h

lemma kept_emitter (hk : Kept mapped s) (hok : s.Careful .emitter)
    (h : s.emitterStep mapped = some s') : Kept mapped s' := by
  unfold Careful at hok
  cases hpc : s.emitter <;> rw [hpc] at hok <;>
    simp only [emitterStep, hpc, reduceCtorEq, Option.some.injEq] at h <;> subst h
  case started l => exact hk.turn (l := l) (by rw [hpc]; rfl) rfl (by rw [hpc]; rfl)
  case noted l =>
    split_ifs
    · exact hk.turn (l := l) (by rw [hpc]; rfl) rfl (by rw [hpc]; rfl)
    · exact hk.turn (l := l) (by rw [hpc]; rfl) rfl (by rw [hpc]; rfl)
  case writing l => exact hk.write hpc hok
  case written l => exact hk.retain hpc
  case withheld l => exact hk.withhold hpc hok
  case queued l =>
    split_ifs with hoff
    · refine hk.doze (.inr ⟨rfl,l,hpc⟩) rest_ne_off ?_ fun hw => absurd trivial hw
      simp [taken, hoff, rest, watchdogChecks]
    · exact hk.doze (.inr ⟨rfl,l,hpc⟩) hoff rfl hk.drained

lemma kept_watchdog (ht : Timed s) (hk : Kept mapped s) (hok : s.Careful .watchdog)
    (h : s.watchdogStep mapped = some s') : Kept mapped s' := by
  cases hpc : s.watchdog with
  | off => simp [watchdogStep, hpc] at h
  | exited => simp [watchdogStep, hpc] at h
  | asleep left wake =>
    simp only [watchdogStep, hpc] at h
    split_ifs at h with hwake hcollect hgrace <;> cases h
    · rw [ht.collected] at hcollect
      cases hcollect
    · exact hk.doze (.inl rfl) (by simp) (by simp [taken, hpc]) fun hw => absurd trivial hw
    · have h1 := (ht.asleep left wake hpc).1
      refine hk.doze (.inl rfl) rest_ne_off ?_ fun hw => ?_
      · rw [taken_rest]
        simp [taken, hpc]
      · obtain rfl : left = 1 := by
          have hlast := rest_watching hw
          omega
        exact absurd (ht.grace hpc (not_lt.mp hwake)) hgrace
  | taking left =>
    simp only [watchdogStep, hpc] at h
    split_ifs at h with hnil <;> cases h
    · refine hk.doze (.inl rfl) rest_ne_off ?_ fun _ => hnil
      rw [taken_rest]
      simp [taken, hpc]
    · exact hk.take hpc fun l hl => by simpa [Careful, hpc, hl] using hok
  | flushing labels =>
    cases labels <;> simp only [watchdogStep, hpc, Option.some.injEq] at h <;> subst h
    · refine hk.doze (.inl rfl) (by simp) (by simp [taken, hpc]) fun _ => ?_
      exact hk.drained (by simp [Watching, hpc])
    · exact hk.flush hpc

lemma kept_step (ht : Timed s) (hk : Kept mapped s) (hlawful : s.Lawful mapped act)
    (hok : s.Careful act) (h : s.step mapped act = some s') : Kept mapped s' := by
  cases act with
  | emitter => exact kept_emitter hk hok h
  | watchdog => exact kept_watchdog ht hk hok h
  | pass ms =>
    cases h
    obtain ⟨hlawful,hapart,hknown,hdistinct,hcurrent,hdrained,hunarmed,hsettled⟩ := hk
    exact ⟨hlawful,hapart,hknown,hdistinct,hcurrent,hdrained,hunarmed,hsettled⟩
  | emit l =>
    simp only [step] at h
    split_ifs at h with hidle
    cases h
    exact hk.emit hidle hlawful

lemma timed_start (hs : Initial s) : Timed s := by
  obtain ⟨hcollected,hfirst,hpending,hemitter,hwatchdog,hnamed⟩ := hs
  exact ⟨hcollected,by simp [hfirst],by simp [hwatchdog, hemitter],by simp [hwatchdog],
    by simp [hwatchdog]⟩

lemma kept_start (hs : Initial s) : Kept mapped s := by
  obtain ⟨hcollected,hfirst,hpending,hemitter,hwatchdog,hnamed⟩ := hs
  refine ⟨by simp [hnamed],by simp [hnamed],by simp [hpending, taken, hwatchdog],?_,
    by simp [hemitter, EmitPc.label],fun _ => hpending,fun _ => .inl hpending,
    by simp [lastNamed, hnamed]⟩
  rw [hpending]
  exact List.Pairwise.nil

/-- After a careful run each label named holds the value of the last packet that named it. -/
theorem careful_fresh (hs : Reach (step mapped) Initial
    (fun s act => s.Lawful mapped act ∧ s.Careful act) s) (hdone : s.Finished) : Fresh s := by
  have htimed {s : LabelState} (hs : Reach (step mapped) Initial
      (fun s act => s.Lawful mapped act ∧ s.Careful act) s) : Timed s :=
    hs.invariant (fun _ => timed_start) fun _ _ _ ht _ h => timed_step ht h
  have hk : Kept mapped s := hs.invariant_of (fun _ => htimed) (fun _ => kept_start)
    fun _ _ _ ht hk hok h => kept_step ht hk hok.1 hok.2 h
  obtain ⟨hidle,hwatchdog⟩ := hdone
  have hout : s.pending ++ s.taken = [] := by
    rcases hwatchdog with hoff | hexited
    · have hnil := (hk.unarmed hoff).resolve_right (by simp [hidle])
      simp [hnil, taken, hoff]
    · have hnil := hk.drained (by simp [Watching, hexited])
      simp [hnil, taken, hexited]
  intro addr l hl
  rcases hk.settled addr l hl with ⟨e,he,-⟩ | ⟨e,he,-⟩ | ⟨-,-,hvalue⟩
  · rw [hidle] at he
    cases he
  · rw [hidle] at he
    cases he
  · rw [hout] at hvalue
    exact hvalue.resolve_right List.not_mem_nil

/-- Memory of zeros, before the first packet. -/
def boot : LabelState := ⟨fun _ => 0,0,none,false,false,[],.idle,.off,[]⟩

instance (mapped : ℕ → ℕ → Bool) (s : LabelState) (act : LabelAct) : Decidable (s.Lawful mapped act) :=
  match act with
  | .emit l => inferInstanceAs (Decidable (l.addr ≠ 0 ∧ mapped l.addr l.width ∧ ∀ e ∈ s.named,
      (l.addr = e.addr ∨ l.addr+l.storeWidth ≤ e.addr ∨ e.addr+e.storeWidth ≤ l.addr)))
  | .pass _ | .emitter | .watchdog => inferInstanceAs (Decidable True)

instance (s : LabelState) : Decidable s.Watching :=
  match h : s.watchdog with
  | .off | .asleep _ _ | .taking _ => .isTrue (by simp [Watching, h])
  | .flushing _ | .exited => .isFalse (by simp [Watching, h])

instance (s : LabelState) (act : LabelAct) : Decidable (s.Careful act) := by
  unfold Careful
  split
  · split <;> infer_instance
  · split <;> infer_instance
  · infer_instance

/-- A label is withheld until the watchdog writes it, and its next value is written at once. -/
theorem careful_fresh_flushed : ∃ s, Fresh s ∧ s.lastNamed 8 = some ⟨8,2,8⟩ := by
  have hstart : Reach (step fun _ _ => true) Initial
      (fun s act => s.Lawful (fun _ _ => true) act ∧ s.Careful act) boot :=
    .start ⟨rfl,rfl,rfl,rfl,rfl,rfl⟩
  have hrun : ((Transition.exec (Transition.guarded (step fun _ _ => true)
      fun s act => s.Lawful (fun _ _ => true) act ∧ s.Careful act) boot
      [.emit ⟨8,1,8⟩,.emitter,.emitter,.emitter,.emitter,.pass 1000,.watchdog,.watchdog,.watchdog,
        .watchdog,.emit ⟨8,2,8⟩,.emitter,.emitter,.emitter,.emitter]).map fun s =>
      decide (s.emitter = .idle ∧ s.watchdog = .exited ∧ s.lastNamed 8 = some ⟨8,2,8⟩)) = some true := by
    decide +kernel
  obtain ⟨s,hexec,hs⟩ := Option.map_eq_some_iff.mp hrun
  obtain ⟨hidle,hexited,hlast⟩ := of_decide_eq_true hs
  exact ⟨s,careful_fresh (hstart.exec hexec) ⟨hidle,.inr hexited⟩,hlast⟩

/-- The watchdog takes a label, its next value is written at once, and the watchdog writes the
older one. -/
theorem not_fresh_overtaken : ¬∀ (mapped : ℕ → ℕ → Bool) (s : LabelState),
    Reach (step mapped) Initial (fun s act => s.Lawful mapped act) s → s.Finished → Fresh s := by
  intro h
  let mapped : ℕ → ℕ → Bool := fun _ _ => true
  have hstart : Reach (step mapped) Initial (fun s act => s.Lawful mapped act) boot :=
    .start ⟨rfl,rfl,rfl,rfl,rfl,rfl⟩
  have hrun : ((Transition.exec (Transition.guarded (step fun _ _ => true)
      fun s act => s.Lawful (fun _ _ => true) act) boot
      [.emit ⟨8,1,8⟩,.emitter,.emitter,.emitter,.emitter,.pass 1000,.watchdog,.watchdog,
        .emit ⟨8,2,8⟩,.emitter,.emitter,.emitter,.emitter,.watchdog,.watchdog]).map fun s =>
      decide (s.emitter = .idle ∧ s.watchdog = .exited ∧ s.lastNamed 8 = some ⟨8,2,8⟩ ∧
        bytesAt s.bytes 8 8 ≠ (⟨8,2,8⟩ : Label).data)) = some true := by
    decide +kernel
  obtain ⟨s,hexec,hs⟩ := Option.map_eq_some_iff.mp hrun
  obtain ⟨hidle,hexited,hlast,hbytes⟩ := of_decide_eq_true hs
  exact hbytes (h mapped s (hstart.exec hexec) ⟨hidle,.inr hexited⟩ 8 _ hlast)

end LabelState

end Unemups4.Gnm

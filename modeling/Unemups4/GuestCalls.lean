import Mathlib

/-! Guest calls and the calls that syscall handlers make back into the guest: every level runs a
vcpu of its own and all of them share the stack anchor, the stack pointer of the syscall in
flight and the request to end the thread. A run of a vcpu is the list of its exits; a run that
goes on for ever is seen by its finite parts. -/
namespace Unemups4.Cpu

abbrev Addr := BitVec 64

mutual

/-- The exits of a vcpu, in order: the function returns, anything unexpected ends it, or a
syscall is handled and the vcpu goes on. -/
inductive Run where
  | returned (rax : Addr)
  | fatal
  | syscall (rsp : Addr) (handler : Handler) (ret : Addr) (rest : Run)

/-- What a handler does that is seen here. -/
inductive Handler where
  | done
  | stackArg (n : ℕ) (rest : Handler)
  | requestExit (value : Addr) (rest : Handler)
  | callGuest (entry arg : Addr) (run : Run) (rest : Handler)

end

inductive GuestExit where
  | returned (rax : Addr)
  | threadExit (value : Addr)
  | fatal
  deriving DecidableEq, Repr

/-- What is seen of a call: guest code runs, a nested frame is carved below the syscall that
exited at a stack pointer, its handler reads an argument at an address or asks for an exit. -/
inductive Event where
  | guest
  | frame (outer nested : Addr)
  | arg (outer : Addr) (n : ℕ) (addr : Addr)
  | request (value : Addr)
  deriving DecidableEq, Repr

/-- The values that all levels of a thread share, and what has been seen. -/
structure ExecCtx where
  curRsp : Addr
  syscallRsp : Addr
  exitRequested : Option Addr
  trace : List Event

namespace ExecCtx

variable (s : ExecCtx)

def log (e : Event) : ExecCtx := { s with trace := s.trace ++ [e] }

def requestThreadExit (value : Addr) : ExecCtx := { s with exitRequested := some value }

end ExecCtx

/-- Where an argument of a syscall that exited at a stack pointer lies. -/
def argAddr (rsp : Addr) (n : ℕ) : Addr := rsp+8#64+BitVec.ofNat 64 ((n-6)*8)

/-- A frame below the red zone. -/
def carve (rsp : Addr) : Addr := (rsp-128#64) &&& ~~~0xf#64

section Calls

variable (writable : Addr → Bool)

mutual

/-- The run loop after its vcpu has been set up. -/
def vcpu (s : ExecCtx) : Run → ExecCtx × GuestExit
  | .returned rax => (s.log .guest,.returned rax)
  | .fatal => (s.log .guest,.fatal)
  | .syscall rsp handler _ rest =>
      let s := handle rsp { s.log .guest with curRsp := rsp, syscallRsp := rsp } handler
      match s.exitRequested with
      | some value => ({ s with exitRequested := none },.threadExit value)
      | none => vcpu s rest

/-- The handler of a syscall that exited at a stack pointer. A nested call that cannot push its
return address runs no guest code, and one that ends the thread asks for the exit anew. -/
def handle (rsp : Addr) (s : ExecCtx) : Handler → ExecCtx
  | .done => s
  | .stackArg n rest => handle rsp (s.log (.arg rsp n (argAddr s.syscallRsp n))) rest
  | .requestExit value rest => handle rsp ((s.log (.request value)).requestThreadExit value) rest
  | .callGuest _ _ run rest =>
      let nestedRsp := carve s.curRsp
      if writable (nestedRsp-8#64) then
        let (s,exit) := vcpu (s.log (.frame rsp nestedRsp)) run
        match exit with
        | .threadExit value => handle rsp (s.requestThreadExit value) rest
        | .returned _ | .fatal => handle rsp s rest
      else handle rsp s rest

end

/-- A call from outside any guest code, with what the thread's last syscall left behind. -/
def runGuestCall (rsp syscallRsp : Addr) (run : Run) : List Event × GuestExit :=
  if writable (rsp-8#64) then
    let (s,exit) := vcpu writable ⟨rsp,syscallRsp,none,[]⟩ run
    (s.trace,exit)
  else ([],.fatal)

end Calls

/-- The exit asked for last. -/
def lastRequest : List Event → Option Addr
  | [] => none
  | .request value::events => (lastRequest events).or (some value)
  | _::events => lastRequest events

/-- No guest code runs after an exit has been asked for. -/
def Quiet : List Event → Prop
  | [] => True
  | .request _::events => .guest ∉ events
  | _::events => Quiet events

/-- A frame lies below the red zone of the syscall it is nested under, and an argument is read
where that syscall has it. -/
def Event.Proper : Event → Prop
  | frame outer nested => nested.toNat+128 ≤ outer.toNat
  | arg outer n addr => addr = argAddr outer n
  | guest | request _ => True

/-- Each level keeps the frame of the one above, and an exit ends the call. -/
structure KeepsFrames (events : List Event) (exit : GuestExit) : Prop where
  proper : ∀ e ∈ events, e.Proper
  quiet : Quiet events
  exits : ∀ value, lastRequest events = some value → exit = .threadExit value

/-- A run that makes a syscall. -/
def Run.calls : Run → Bool
  | .syscall _ _ _ _ => true
  | .returned _ | .fatal => false

mutual

/-- Handlers are careful throughout. -/
def Run.Careful : Run → Prop
  | .returned _ | .fatal => True
  | .syscall _ handler _ rest => handler.Careful false false ∧ rest.Careful

/-- Once a nested call has made a syscall, a handler reads no argument and calls the guest no
more; nor does it call the guest once it has asked for an exit. -/
def Handler.Careful (called asked : Bool) : Handler → Prop
  | .done => True
  | .stackArg _ rest => called = false ∧ rest.Careful called asked
  | .requestExit _ rest => rest.Careful called true
  | .callGuest _ _ run rest => called = false ∧ asked = false ∧ run.Careful ∧
      rest.Careful run.calls false

end

section Carve

lemma toNat_and_not_fifteen (x : Addr) : (x &&& ~~~0xf#64).toNat = x.toNat/16*16 := by
  have hshift : x &&& ~~~0xf#64 = (x >>> 4) <<< 4 := by
    rw [BitVec.shiftLeft_ushiftRight]
    rfl
  have hlt := x.isLt
  rw [hshift, BitVec.toNat_shiftLeft, BitVec.toNat_ushiftRight, Nat.shiftLeft_eq,
    Nat.shiftRight_eq_div_pow]
  omega

/-- Guest memory is mapped in the lower half of the address space. -/
def LowerHalf (writable : Addr → Bool) : Prop := ∀ addr, writable addr → addr.toNat+8 ≤ 2^63

/-- A return address that can be pushed lies below the red zone. -/
lemma carve_below {writable : Addr → Bool} (hw : LowerHalf writable) {rsp : Addr}
    (h : writable (carve rsp-8#64)) : (carve rsp).toNat+128 ≤ rsp.toNat := by
  have hlt := rsp.isLt
  have hpush := hw _ h
  have hcarve : (carve rsp).toNat = (rsp-128#64).toNat/16*16 := toNat_and_not_fifteen _
  have hsub : (rsp-128#64).toNat = (2^64-128+rsp.toNat)%2^64 := by
    rw [BitVec.toNat_sub]
    rfl
  have hslot : (carve rsp-8#64).toNat = (2^64-8+(carve rsp).toNat)%2^64 := by
    rw [BitVec.toNat_sub]
    rfl
  omega

end Carve

section Events

variable {a b : List Event} {asked now later : Option Addr} {t t' t'' : List Event}

lemma lastRequest_append : lastRequest (a++b) = (lastRequest b).or (lastRequest a) := by
  induction a with
  | nil => simp [lastRequest]
  | cons e a ih => cases e <;> simp [lastRequest, ih]

lemma quiet_append (ha : Quiet a) (hb : Quiet b) (h : (lastRequest a).isSome → .guest ∉ b) :
    Quiet (a++b) := by
  induction a with
  | nil => exact hb
  | cons e a ih =>
    cases e with
    | guest | frame | arg => exact ih ha h
    | request value =>
      have hguest := h (by simp [lastRequest])
      simp only [Quiet, List.cons_append, List.mem_append, not_or] at ha ⊢
      exact ⟨ha,hguest⟩

/-- A trace grows by proper events that respect the exit asked for before, if any, and leave the
one asked for now. -/
def Extends (t t' : List Event) (asked now : Option Addr) : Prop :=
  ∃ events, t' = t ++ events ∧ (∀ e ∈ events, e.Proper) ∧ Quiet events ∧
    (asked.isSome → .guest ∉ events) ∧ now = (lastRequest events).or asked

lemma Extends.refl (t : List Event) (asked : Option Addr) : Extends t t asked asked :=
  ⟨[],by simp,by simp,trivial,by simp,rfl⟩

lemma Extends.trans (h : Extends t t' asked now) (h' : Extends t' t'' now later) :
    Extends t t'' asked later := by
  obtain ⟨events,rfl,hproper,hquiet,hguest,rfl⟩ := h
  obtain ⟨events',rfl,hproper',hquiet',hguest',rfl⟩ := h'
  refine ⟨events++events',by simp,?_,?_,?_,?_⟩
  · intro e he
    rcases List.mem_append.mp he with he | he
    · exact hproper e he
    · exact hproper' e he
  · exact quiet_append hquiet hquiet' fun hsome => hguest' (by simp [hsome])
  · intro hsome hmem
    rcases List.mem_append.mp hmem with hmem | hmem
    · exact hguest hsome hmem
    · exact hguest' (by simp [hsome]) hmem
  · rw [lastRequest_append, Option.or_assoc]

lemma Extends.one {e : Event} (he : e.Proper) (hguest : asked.isSome → e ≠ .guest) :
    Extends t (t++[e]) asked ((lastRequest [e]).or asked) := by
  refine ⟨[e],rfl,by simpa using he,by cases e <;> simp [Quiet],?_,rfl⟩
  intro hsome hmem
  exact hguest hsome (List.mem_singleton.mp hmem).symm

end Events

def GuestExit.value : GuestExit → Option Addr
  | threadExit value => some value
  | returned _ | fatal => none

lemma GuestExit.eq_of_value {exit : GuestExit} {value : Addr} (h : exit.value = some value) :
    exit = .threadExit value := by
  cases exit with
  | threadExit => exact congrArg _ (Option.some.inj h)
  | returned | fatal => cases h

section Levels

variable {writable : Addr → Bool}

/-- A run without syscalls leaves the shared values alone. -/
lemma vcpu_same (writable : Addr → Bool) (s : ExecCtx) (run : Run) (h : run.calls = false) :
    (vcpu writable s run).1 = s.log .guest ∧ (vcpu writable s run).2.value = none := by
  cases run with
  | returned | fatal => exact ⟨rfl,rfl⟩
  | syscall => cases h

lemma frame_extends (hw : LowerHalf writable) {rsp : Addr} (h : writable (carve rsp-8#64)) (t : List Event) :
    Extends t (t++[.frame rsp (carve rsp)]) none none :=
  Extends.one (carve_below hw h) (by simp)

mutual

/-- A careful run starts without a request and leaves none; it ends as the requests in it say. -/
lemma vcpu_extends (hw : LowerHalf writable) (s : ExecCtx) (hs : s.exitRequested = none) :
    (run : Run) → run.Careful →
    Extends s.trace (vcpu writable s run).1.trace none (vcpu writable s run).2.value ∧
      (vcpu writable s run).1.exitRequested = none
  | .returned rax, _ => by
    exact ⟨Extends.one trivial (by simp),hs⟩
  | .fatal, _ => by
    exact ⟨Extends.one trivial (by simp),hs⟩
  | .syscall rsp handler ret rest, hc => by
    have hguest : Extends s.trace (s.trace ++ [.guest]) none none := Extends.one trivial (by simp)
    have hhandle := handle_extends hw rsp { s.log .guest with curRsp := rsp, syscallRsp := rsp } false
      false (fun _ => ⟨rfl,rfl⟩) (fun _ _ => hs) handler hc.1
    rw [show ({ s.log .guest with curRsp := rsp, syscallRsp := rsp } : ExecCtx).exitRequested = none
      from hs] at hhandle
    have hboth := hguest.trans hhandle
    unfold vcpu
    simp only
    generalize handle writable rsp { s.log .guest with curRsp := rsp, syscallRsp := rsp } handler =
      s' at hboth ⊢
    cases hexit : s'.exitRequested with
    | some value =>
      rw [hexit] at hboth
      exact ⟨hboth,rfl⟩
    | none =>
      rw [hexit] at hboth
      obtain ⟨hrest,hnone⟩ := vcpu_extends hw s' hexit rest hc.2
      exact ⟨hboth.trans hrest,hnone⟩

lemma handle_extends (hw : LowerHalf writable) (rsp : Addr) (s : ExecCtx) (called asked : Bool)
    (hrsp : called = false → s.curRsp = rsp ∧ s.syscallRsp = rsp)
    (hasked : called = false → asked = false → s.exitRequested = none) :
    (handler : Handler) → handler.Careful called asked →
      Extends s.trace (handle writable rsp s handler).trace s.exitRequested
        (handle writable rsp s handler).exitRequested
  | .done, _ => Extends.refl _ _
  | .stackArg n rest, hc => by
    obtain ⟨hcalled,hrest⟩ := hc
    have harg : Extends s.trace (s.trace ++ [.arg rsp n (argAddr s.syscallRsp n)]) s.exitRequested
        s.exitRequested :=
      Extends.one (congrArg (argAddr · n) (hrsp hcalled).2) (by simp)
    exact harg.trans (handle_extends hw rsp (s.log (.arg rsp n (argAddr s.syscallRsp n))) called asked
      hrsp hasked rest hrest)
  | .requestExit value rest, hc => by
    have hrequest : Extends s.trace (s.trace ++ [.request value]) s.exitRequested (some value) :=
      Extends.one trivial (by simp)
    exact hrequest.trans (handle_extends hw rsp ((s.log (.request value)).requestThreadExit value) called
      true hrsp (fun _ h => by cases h) rest hc)
  | .callGuest entry arg run rest, hc => by
    obtain ⟨hcalled,hnot,hrun,hrest⟩ := hc
    obtain ⟨hcur,hsyscall⟩ := hrsp hcalled
    have hnone := hasked hcalled hnot
    unfold handle
    simp only [hcur]
    split_ifs with hpush
    · have hframe := frame_extends hw hpush s.trace
      obtain ⟨hcall,hleft⟩ := vcpu_extends hw (s.log (.frame rsp (carve rsp))) hnone run hrun
      have hsame := vcpu_same writable (s.log (.frame rsp (carve rsp))) run
      have hboth := hframe.trans hcall
      rw [hnone]
      generalize vcpu writable (s.log (.frame rsp (carve rsp))) run = r at hleft hsame hboth ⊢
      obtain ⟨s',exit⟩ := r
      cases exit with
      | threadExit value =>
        refine hboth.trans (handle_extends hw rsp (s'.requestThreadExit value) run.calls false
          (fun h => ?_) (fun h => ?_) rest hrest)
        · cases (hsame h).2
        · cases (hsame h).2
      | returned | fatal =>
        have hkept : run.calls = false → s'.curRsp = rsp ∧ s'.syscallRsp = rsp := by
          intro h
          have heq : s' = (s.log (.frame rsp (carve rsp))).log .guest := (hsame h).1
          subst heq
          exact ⟨hcur,hsyscall⟩
        have hrest := handle_extends hw rsp s' run.calls false hkept (fun _ _ => hleft) rest hrest
        rw [show s'.exitRequested = none from hleft] at hrest
        exact hboth.trans hrest
    · exact handle_extends hw rsp s run.calls false (fun _ => ⟨hcur,hsyscall⟩) (fun _ _ => hnone) rest
        hrest

end

/-- With careful handlers every nested call keeps the frame of the call above it, and an exit
ends the whole call at once. -/
theorem careful_keepsFrames (hw : LowerHalf writable) (rsp syscallRsp : Addr) {run : Run} (hc : run.Careful) :
    KeepsFrames (runGuestCall writable rsp syscallRsp run).1
      (runGuestCall writable rsp syscallRsp run).2 := by
  unfold runGuestCall
  split_ifs with hpush
  · obtain ⟨⟨events,htrace,hproper,hquiet,-,hlast⟩,-⟩ :=
      vcpu_extends hw ⟨rsp,syscallRsp,none,[]⟩ rfl run hc
    simp only [List.nil_append] at htrace
    simp only [htrace]
    refine ⟨hproper,hquiet,fun value hvalue => ?_⟩
    rw [hvalue] at hlast
    exact GuestExit.eq_of_value hlast
  · exact ⟨by simp,trivial,by simp [lastRequest]⟩

end Levels

/-- What is mapped of the address space. -/
def arena (addr : Addr) : Bool := 0x10000 ≤ addr.toNat ∧ addr.toNat+8 ≤ 64*1024*1024*1024

lemma arena_lowerHalf : LowerHalf arena := by
  intro addr h
  have hspan := (of_decide_eq_true h).2
  omega

/-- A handler that reads an argument, calls the guest, whose own handler asks for an exit, and
returns. -/
theorem careful_keepsFrames_nested :
    let inner : Run := .syscall 0x7fe00#64 (.requestExit 7#64 .done) 0#64 (.returned 0#64)
    let run : Run := .syscall 0x7ff08#64 (.stackArg 6 (.callGuest 0x400000#64 0#64 inner .done)) 0#64
      (.returned 1#64)
    KeepsFrames (runGuestCall arena 0x80000#64 0#64 run).1 (runGuestCall arena 0x80000#64 0#64 run).2 ∧
      (runGuestCall arena 0x80000#64 0#64 run).2 = .threadExit 7#64 := by
  intro inner run
  refine ⟨careful_keepsFrames arena_lowerHalf 0x80000#64 0#64 ?_,by decide +kernel⟩
  exact ⟨⟨rfl,rfl,rfl,⟨trivial,trivial⟩,trivial⟩,trivial⟩

/-- A handler that starts two modules: the first one's exit does not keep the second from
running. -/
theorem not_keepsFrames_modules : ¬∀ (writable : Addr → Bool) (rsp syscallRsp : Addr) (run : Run),
    LowerHalf writable → KeepsFrames (runGuestCall writable rsp syscallRsp run).1
      (runGuestCall writable rsp syscallRsp run).2 := by
  intro hall
  have hkeeps := hall arena 0x80000#64 0#64 (.syscall 0x7ff08#64 (.callGuest 0x400000#64 0#64
    (.syscall 0x7fe00#64 (.requestExit 7#64 .done) 0#64 (.returned 0#64)) (.callGuest 0x500000#64
      0#64 (.returned 0#64) .done)) 1#64 (.returned 1#64)) arena_lowerHalf
  have htrace : (runGuestCall arena 0x80000#64 0#64 (.syscall 0x7ff08#64 (.callGuest 0x400000#64 0#64
      (.syscall 0x7fe00#64 (.requestExit 7#64 .done) 0#64 (.returned 0#64)) (.callGuest 0x500000#64
        0#64 (.returned 0#64) .done)) 1#64 (.returned 1#64))).1 =
      [.guest,.frame 0x7ff08#64 0x7fe80#64,.guest,.request 7#64,.frame 0x7ff08#64 0x7fd80#64,.guest] := by
    decide +kernel
  have hquiet : Event.guest ∉ [.frame 0x7ff08#64 0x7fd80#64,.guest] := by
    have hquiet := hkeeps.quiet
    rw [htrace] at hquiet
    exact hquiet
  exact hquiet (by decide)

end Unemups4.Cpu

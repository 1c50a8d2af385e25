import Mathlib

/-! The ring between the guest's audio output and the host's: the guest side pushes stereo frames and
drops the oldest samples of an overfull ring, the host side drains it once it holds a cushion and
plays silence until then. -/
namespace Unemups4.Audio

@[irreducible] def ringCap : ℕ := 16384

def prefill : ℕ := 4096

/-- The ring, the oldest sample first, and whether the host side drains it. -/
structure HostRing (α : Type) where
  ring : List α
  primed : Bool

variable {α : Type} (silence : α)

/-- The left and the right sample of each frame. -/
def samples (frames : List (α × α)) : List α := frames.flatMap fun f => [f.1,f.2]

/-- Drops the oldest samples of an overfull ring. -/
def boundRing : List α → List α
  | [] => []
  | s :: ring => if ringCap < (s :: ring).length then boundRing ring else s :: ring

/-- What is handed to the sink, what stays in the ring, and whether it stays primed. -/
def drainLoop : ℕ → List α → List α × HostRing α
  | 0,ring => ([],⟨ring,true⟩)
  | n+1,[] => (.replicate (n+1) silence,⟨[],false⟩)
  | n+1,s :: ring => (s :: (drainLoop n ring).1,(drainLoop n ring).2)

namespace HostRing

def drainPrimed (r : HostRing α) (n : ℕ) : List α × HostRing α :=
  if r.primed = false ∧ r.ring.length < prefill then (.replicate n silence,r)
  else drainLoop silence n r.ring

def pushToHost (r : HostRing α) (frames : List (α × α)) : HostRing α :=
  { r with ring := boundRing (r.ring ++ samples frames) }

end HostRing

/-- A grain of the guest, or a buffer of the host, which holds whole frames. -/
inductive AudioCall (α : Type)
  | push (frames : List (α × α))
  | drain (frames : ℕ)

/-- The buffers that the host gets. -/
def runAudio : HostRing α → List (AudioCall α) → List (List α) × HostRing α
  | r,[] => ([],r)
  | r,.push frames :: calls => runAudio (r.pushToHost frames) calls
  | r,.drain m :: calls =>
      ((r.drainPrimed silence (2*m)).1 :: (runAudio (r.drainPrimed silence (2*m)).2 calls).1,
        (runAudio (r.drainPrimed silence (2*m)).2 calls).2)

/-- The frames of the calls, in order. -/
def pushed : List (AudioCall α) → List (α × α)
  | [] => []
  | .push frames :: calls => frames ++ pushed calls
  | .drain _ :: calls => pushed calls

/-- How many samples the host asks for. -/
def asked : List (AudioCall α) → List ℕ
  | [] => []
  | .push _ :: calls => asked calls
  | .drain m :: calls => 2*m :: asked calls

section Frames

variable {frames held : List (α × α)}

@[simp] lemma samples_nil : samples ([] : List (α × α)) = [] := rfl

@[simp] lemma samples_cons (f : α × α) (frames : List (α × α)) :
    samples (f :: frames) = f.1 :: f.2 :: samples frames := by simp [samples]

lemma samples_append (a b : List (α × α)) : samples (a ++ b) = samples a ++ samples b := by
  simp [samples]

lemma samples_length (frames : List (α × α)) : (samples frames).length = 2*frames.length := by
  induction frames with
  | nil => rfl
  | cons f frames ih =>
    rw [samples_cons, List.length_cons, List.length_cons, List.length_cons, ih]
    omega

lemma boundRing_of_le {ring : List α} (h : ring.length ≤ ringCap) : boundRing ring = ring := by
  cases ring with
  | nil => rfl
  | cons s ring => rw [boundRing, if_neg (not_lt.mpr h)]

/-- Only whole frames are dropped. -/
lemma boundRing_samples (frames : List (α × α)) :
    boundRing (samples frames) = samples (frames.drop (frames.length-ringCap/2)) := by
  induction frames with
  | nil => simp [boundRing]
  | cons f frames ih =>
    have hlen := samples_length (f :: frames)
    by_cases hfull : ringCap < (samples (f :: frames)).length
    · have hcount : (f :: frames).length-ringCap/2 = frames.length-ringCap/2+1 := by
        rw [List.length_cons] at hlen ⊢
        rw [ringCap] at hfull ⊢
        omega
      have hagain : ringCap < (f.2 :: samples frames).length := by
        rw [List.length_cons, samples_length]
        rw [hlen, List.length_cons] at hfull
        rw [ringCap] at hfull ⊢
        omega
      rw [samples_cons] at hfull ⊢
      rw [boundRing, if_pos hfull, boundRing, if_pos hagain, ih, hcount, List.drop_succ_cons]
    · have hzero : (f :: frames).length-ringCap/2 = 0 := by
        rw [hlen] at hfull
        rw [ringCap] at hfull ⊢
        omega
      rw [boundRing_of_le (not_lt.mp hfull), hzero, List.drop_zero]

/-- So many frames leave the ring as there are, and silence follows them; a ring that ran dry has to
be primed again. -/
lemma drainLoop_samples (m : ℕ) (held : List (α × α)) : drainLoop silence (2*m) (samples held) =
    (samples (held.take m) ++ .replicate (2*(m-held.length)) silence,
      ⟨samples (held.drop m),decide (m ≤ held.length)⟩) := by
  induction m generalizing held with
  | zero => simp [drainLoop]
  | succ m ih =>
    cases held with
    | nil => simp [Nat.mul_succ, drainLoop]
    | cons f held =>
      rw [Nat.mul_succ, samples_cons, drainLoop, drainLoop, ih held]
      simp

/-- Silence while the ring is filled up for the first time or again; then all the frames there are. -/
lemma drainPrimed_eq {r : HostRing α} (h : r.ring = samples held) (m : ℕ) :
    r.drainPrimed silence (2*m) =
      if r.primed = false ∧ 2*held.length < prefill then (.replicate (2*m) silence,r)
      else (samples (held.take m) ++ .replicate (2*(m-held.length)) silence,
        ⟨samples (held.drop m),decide (m ≤ held.length)⟩) := by
  rw [HostRing.drainPrimed, h, samples_length, drainLoop_samples]

lemma drainPrimed_samples {r : HostRing α} (h : r.ring = samples held) (m : ℕ) :
    ∃ k silent, k ≤ m ∧ (r.drainPrimed silence (2*m)).1 =
        samples (held.take k) ++ .replicate (2*silent) silence ∧
      (r.drainPrimed silence (2*m)).1.length = 2*m ∧
      (r.drainPrimed silence (2*m)).2.ring = samples (held.drop k) := by
  rw [drainPrimed_eq silence h]
  split_ifs with hprime
  · exact ⟨0,m,Nat.zero_le _,by simp,by simp,by simpa using h⟩
  · refine ⟨m,m-held.length,le_rfl,rfl,?_,rfl⟩
    rw [List.length_append, samples_length, List.length_take, List.length_replicate]
    omega

end Frames

/-- What the host gets of the frames `offered`: of each buffer some frames and then silence, all of
them in order with what is left in the ring, the newest, and none missing while all that was offered
fits the ring. The next buffer is silent only while the ring is not primed and below its cushion; else
it has the frames there are, as many as it takes, and the ring has to be primed again if those were
fewer. -/
structure Plays (offered : List (α × α)) (counts : List ℕ) (outcome : List (List α) × HostRing α)
    (played : List (List (α × α))) (left : List (α × α)) : Prop where
  ring : outcome.2.ring = samples left
  bounded : left.length ≤ ringCap/2
  buffers : List.Forall₂ (fun out frames => ∃ silent,
    out = samples frames ++ .replicate (2*silent) silence) outcome.1 played
  counts : outcome.1.map List.length = counts
  newest : left <:+ offered
  order : (played.flatten ++ left).Sublist offered
  all : offered.length ≤ ringCap/2 → played.flatten ++ left = offered
  next : ∀ m, outcome.2.drainPrimed silence (2*m) =
    if outcome.2.primed = false ∧ 2*left.length < prefill then (.replicate (2*m) silence,outcome.2)
    else (samples (left.take m) ++ .replicate (2*(m-left.length)) silence,
      ⟨samples (left.drop m),decide (m ≤ left.length)⟩)

lemma runAudio_plays {r : HostRing α} {held : List (α × α)} (hring : r.ring = samples held)
    (hheld : held.length ≤ ringCap/2) (calls : List (AudioCall α)) : ∃ played left,
      Plays silence (held ++ pushed calls) (asked calls) (runAudio silence r calls) played left := by
  induction calls generalizing r held with
  | nil =>
    exact ⟨[],held,hring,hheld,.nil,rfl,by simp [pushed],by simp [pushed],fun _ => by simp [pushed],
      drainPrimed_eq silence hring⟩
  | cons c calls ih =>
    cases c with
    | push frames =>
      have hpush : (r.pushToHost frames).ring =
          samples ((held ++ frames).drop ((held ++ frames).length-ringCap/2)) := by
        rw [HostRing.pushToHost, hring, ← samples_append, boundRing_samples]
      have hbound :
          ((held ++ frames).drop ((held ++ frames).length-ringCap/2)).length ≤ ringCap/2 := by
        rw [List.length_drop]
        omega
      obtain ⟨played,left,h⟩ := ih hpush hbound
      have hsuffix : (held ++ frames).drop ((held ++ frames).length-ringCap/2) ++ pushed calls <:+
          held ++ (frames ++ pushed calls) := by
        rw [← List.append_assoc]
        obtain ⟨dropped,hdropped⟩ :=
          List.drop_suffix ((held ++ frames).length-ringCap/2) (held ++ frames)
        exact ⟨dropped,by rw [← List.append_assoc, hdropped]⟩
      refine ⟨played,left,h.ring,h.bounded,h.buffers,h.counts,h.newest.trans hsuffix,
        h.order.trans hsuffix.sublist,fun hall => ?_,h.next⟩
      rw [pushed, ← List.append_assoc] at hall ⊢
      have hnone : (held ++ frames).length-ringCap/2 = 0 := by
        rw [List.length_append] at hall
        omega
      have hrest := h.all
      rw [hnone, List.drop_zero] at hrest
      exact hrest hall
    | drain m =>
      obtain ⟨k,silent,hk,hout,hlen,hleft⟩ := drainPrimed_samples silence hring m
      obtain ⟨played,left,h⟩ := ih hleft (by rw [List.length_drop]; omega)
      have hjoin : held.take k ++ (held.drop k ++ pushed calls) = held ++ pushed calls := by
        rw [← List.append_assoc, List.take_append_drop]
      refine ⟨held.take k :: played,left,h.ring,h.bounded,.cons ⟨silent,hout⟩ h.buffers,?_,?_,?_,?_,
        h.next⟩
      · rw [runAudio, List.map_cons, hlen, h.counts, asked]
      · rw [pushed, ← hjoin]
        exact h.newest.trans (List.suffix_append _ _)
      · rw [pushed, ← hjoin, List.flatten_cons, List.append_assoc]
        exact h.order.append_left _
      · intro hall
        rw [pushed] at hall ⊢
        rw [List.flatten_cons, List.append_assoc, h.all, hjoin]
        rw [← hjoin, List.length_append] at hall
        omega

/-- From the empty ring on, whatever grains and host buffers come in whatever order, the host plays
frames as they were pushed, in order and whole, with silence between; the ring holds the newest
frames, within its bound, nothing is lost that fits it, and once it has its cushion it plays what it
has. -/
theorem audio_plays (calls : List (AudioCall α)) : ∃ played left,
    Plays silence (pushed calls) (asked calls) (runAudio silence ⟨[],false⟩ calls) played left := by
  have hempty : (⟨[],false⟩ : HostRing α).ring = samples [] := rfl
  exact runAudio_plays silence hempty (Nat.zero_le _) calls

end Unemups4.Audio

import Unemups4.ScrapeLink

/-! The capture link from end to end: what the socket takes of a frame when sends may be partial or
fail, the connections of a run of calls, and what the receiver dumps of them. -/
namespace Unemups4.Scrape
open Checksums

namespace Link

section Send

variable {l : Link} {taken bytes a b : List UInt8} {r first : Link × Bool}

theorem sendLoop_cases (sends : List ℕ) (taken bytes : List UInt8) :
    (∃ sends', sends' <:+ sends ∧ sendLoop sends taken bytes = (sends',taken ++ bytes,true)) ∨
    (0 ∈ sends ∧ ∃ sends' k, k < bytes.length ∧
      sendLoop sends taken bytes = (sends',taken ++ bytes.take k,false)) := by
  induction sends, taken, bytes using sendLoop.induct with
  | case1 sends taken => exact .inl ⟨sends,List.suffix_rfl,by simp [sendLoop]⟩
  | case2 taken c rest => exact .inl ⟨[],List.suffix_rfl,by rw [sendLoop]⟩
  | case3 sends taken c rest =>
    exact .inr ⟨List.mem_cons_self,sends,0,by simp,by simp [sendLoop]⟩
  | case4 n sends taken c rest hn ih =>
    rw [sendLoop, if_neg hn]
    obtain ⟨sends',hsuffix,hloop⟩ | ⟨hmem,sends',k,hk,hloop⟩ := ih
    · refine .inl ⟨sends',hsuffix.trans (List.suffix_cons _ _),?_⟩
      rw [hloop, List.append_assoc, List.take_append_drop]
    · rw [List.length_drop] at hk
      refine .inr ⟨List.mem_cons_of_mem _ hmem,sends',n+k,by omega,?_⟩
      rw [hloop, List.append_assoc, List.take_add]

/-- What sending `bytes` over the open socket of `l`, which has taken `taken`, may come to. -/
inductive Sent (l : Link) (taken bytes : List UInt8) : Link × Bool → Prop
  | whole (sends : List ℕ) (h : sends <:+ l.sends) :
    Sent l taken bytes ({ l with sock := some (taken ++ bytes), sends := sends },true)
  | cut (sends : List ℕ) (k : ℕ) (hk : k < bytes.length) (h : 0 ∈ l.sends) :
    Sent l taken bytes
      ({ l with sock := none, closed := l.closed ++ [taken ++ bytes.take k], sends := sends },false)

lemma sendAll_sent (h : l.sock = some taken) (bytes : List UInt8) :
    Sent l taken bytes (l.sendAll bytes) := by
  rw [sendAll, h]
  obtain ⟨sends,hsuffix,hloop⟩ | ⟨hmem,sends,k,hk,hloop⟩ := sendLoop_cases l.sends taken bytes
  · simp only [hloop]
    exact .whole sends hsuffix
  · simp only [hloop]
    exact .cut sends k hk hmem

lemma Sent.sock {l' : Link} (h : Sent l taken bytes (l',true)) : l'.sock = some (taken ++ bytes) := by
  cases h
  rfl

/-- Nothing follows a send that failed. -/
lemma Sent.cut_append {l' : Link} (h : Sent l taken a (l',false)) (b : List UInt8) :
    Sent l taken (a ++ b) (l',false) := by
  cases h with
  | cut sends k hk hmem =>
    have hcut : Sent l taken (a ++ b) _ := .cut sends k (by rw [List.length_append]; omega) hmem
    rwa [List.take_append_of_le_length hk.le] at hcut

/-- One part after the other. -/
lemma Sent.append {l' : Link} (h : Sent l taken a (l',true)) (h' : Sent l' (taken ++ a) b r) :
    Sent l taken (a ++ b) r := by
  cases h with
  | whole sends hsuffix =>
    cases h' with
    | whole sends' hsuffix' =>
      rw [List.append_assoc]
      exact .whole sends' (hsuffix'.trans hsuffix)
    | cut sends' k hk hmem =>
      have hcut : Sent l taken (a ++ b) _ := .cut sends' (a.length+k)
        (by rw [List.length_append]; omega) (hsuffix.subset hmem)
      rwa [List.take_length_add_append, ← List.append_assoc] at hcut

lemma Sent.nil (h : l.sock = some taken) : Sent l taken [] (l,true) := by
  have hsent : Sent l taken [] _ := .whole l.sends List.suffix_rfl
  rwa [List.append_nil, ← h] at hsent

lemma emitLiteral_sent (h : l.sock = some taken) (lit : List UInt8) :
    Sent l taken (flushLit lit) (l.emitLiteral lit) := by
  by_cases hlit : lit = []
  · rw [emitLiteral, flushLit, if_pos hlit, if_pos hlit]
    exact .nil h
  · rw [emitLiteral, flushLit, if_neg hlit, if_neg hlit]
    have hhead := sendAll_sent h (0 :: leBytes 4 lit.length)
    generalize l.sendAll (0 :: leBytes 4 lit.length) = first at hhead ⊢
    obtain ⟨l',went⟩ := first
    cases went with
    | false => exact hhead.cut_append lit
    | true => exact hhead.append (sendAll_sent hhead.sock lit)

/-- The stream sends the payload that the encoder makes, and counts what it sends. -/
theorem rleStreamFrom_sent (h : l.sock = some taken) (lit data : List UInt8) (comp : ℕ) :
    Sent l taken (rleEncodeFrom lit data)
      ((l.rleStreamFrom lit comp data).1,(l.rleStreamFrom lit comp data).2.isSome) ∧
    ∀ c ∈ (l.rleStreamFrom lit comp data).2, c = comp+rleSizeFrom lit.length data := by
  induction lit, data using rleEncodeFrom.induct generalizing l taken comp with
  | case1 lit =>
    rw [rleEncodeFrom, rleStreamFrom, rleSizeFrom]
    have hlit := emitLiteral_sent h lit
    generalize l.emitLiteral lit = first at hlit ⊢
    obtain ⟨l',went⟩ := first
    cases went with
    | false => exact ⟨hlit,by simp⟩
    | true => exact ⟨hlit,by simp⟩
  | case2 lit rest hrun ih =>
    rw [rleEncodeFrom, if_pos rfl, if_pos hrun, rleStreamFrom, if_pos rfl, if_pos hrun, rleSizeFrom,
      if_pos rfl, if_pos hrun, List.append_assoc]
    have hlit := emitLiteral_sent h lit
    generalize l.emitLiteral lit = first at hlit ⊢
    obtain ⟨l₁,went⟩ := first
    cases went with
    | false => exact ⟨hlit.cut_append _,by simp⟩
    | true =>
      dsimp only
      have hzero := sendAll_sent hlit.sock (zeroRun (zeroesOf (0 :: rest)))
      generalize l₁.sendAll (zeroRun (zeroesOf (0 :: rest))) = second at hzero ⊢
      obtain ⟨l₂,went⟩ := second
      cases went with
      | false => exact ⟨hlit.append (hzero.cut_append _),by simp⟩
      | true =>
        obtain ⟨hrest,hcount⟩ := ih hzero.sock (comp+litSize lit.length+5)
        refine ⟨hlit.append (hzero.append hrest),fun c hc => ?_⟩
        rw [hcount c hc, List.length_nil]
        omega
  | case3 lit rest hrun ih =>
    have htake : ((0 :: rest).take (zeroesOf (0 :: rest))).length = zeroesOf (0 :: rest) := by
      rw [List.length_take, Nat.min_eq_left (zeroesOf_le _)]
    obtain ⟨hrest,hcount⟩ := ih h comp
    rw [rleEncodeFrom, if_pos rfl, if_neg hrun, rleStreamFrom, if_pos rfl, if_neg hrun, rleSizeFrom,
      if_pos rfl, if_neg hrun]
    rw [List.length_append, htake] at hcount
    exact ⟨hrest,hcount⟩
  | case4 lit c rest hc ih =>
    obtain ⟨hrest,hcount⟩ := ih h comp
    rw [rleEncodeFrom, if_neg hc, rleStreamFrom, if_neg hc, rleSizeFrom, if_neg hc]
    rw [List.length_append, List.length_singleton] at hcount
    exact ⟨hrest,hcount⟩

/-- The scan that streams a payload sends what the host's encoder makes of the data, or the first
bytes of it; the scan before it tells how many bytes these are; they decode to the data, and they
are hardly more than it. -/
theorem rleStream_exact {data : List UInt8} (h : l.sock = some taken) (hdata : data.length < 2^32) :
    (((l.rleStream data).2 = some (rleEncode data).length ∧
        (l.rleStream data).1.sock = some (taken ++ rleEncode data) ∧
        (l.rleStream data).1.closed = l.closed) ∨
      ((l.rleStream data).2 = none ∧ (l.rleStream data).1.sock = none ∧
        ∃ k < (rleEncode data).length,
          (l.rleStream data).1.closed = l.closed ++ [taken ++ (rleEncode data).take k])) ∧
    rleSize data = (rleEncode data).length ∧ 9*(rleEncode data).length ≤ 11*data.length+45 ∧
    rleDecode (rleEncode data) data.length = .ok data := by
  have hlen : (rleEncode data).length = rleSize data := rleEncode_length data
  have hsize : 9*rleSize data ≤ 11*(0+data.length)+45 := rleSizeFrom_le 0 data
  refine ⟨?_,hlen.symm,by omega,rleDecode_rleEncode hdata⟩
  obtain ⟨hsent,hcount⟩ := rleStreamFrom_sent h [] data 0
  change Sent l taken (rleEncode data) ((l.rleStream data).1,(l.rleStream data).2.isSome) at hsent
  change ∀ c ∈ (l.rleStream data).2, c = 0+rleSize data at hcount
  rw [hlen]
  generalize l.rleStream data = result at hsent hcount ⊢
  obtain ⟨l',comp⟩ := result
  cases comp with
  | none =>
    cases hsent with
    | cut sends k hk hmem => exact .inr ⟨rfl,rfl,k,hlen ▸ hk,rfl⟩
  | some c =>
    have hc := hcount c rfl
    cases hsent with
    | whole sends hsuffix => exact .inl ⟨by rw [hc, Nat.zero_add],rfl,rfl⟩

theorem rleStream_exact_cut : (let l : Link := ⟨some [7],[],0,[],[2,3,0]⟩
    let data : List UInt8 := [5,0,0,0,0,0,0,0,0,9]
    (((l.rleStream data).2 = some (rleEncode data).length ∧
        (l.rleStream data).1.sock = some ([7] ++ rleEncode data) ∧
        (l.rleStream data).1.closed = l.closed) ∨
      ((l.rleStream data).2 = none ∧ (l.rleStream data).1.sock = none ∧
        ∃ k < (rleEncode data).length,
          (l.rleStream data).1.closed = l.closed ++ [[7] ++ (rleEncode data).take k])) ∧
    rleSize data = (rleEncode data).length ∧ 9*(rleEncode data).length ≤ 11*data.length+45 ∧
    rleDecode (rleEncode data) data.length = .ok data) := rleStream_exact rfl (by norm_num)

end Send

end Link

namespace Link

section Run

variable {l : Link} {b : Buffer} {bs sent : List Buffer}

lemma ensureConnected_cases (l : Link) :
    ((∃ taken, l.sock = some taken) ∧ l.ensureConnected = (l,true)) ∨
    (l.sock = none ∧ ∃ l', l.ensureConnected = (l',true) ∧ l'.sock = some [] ∧ l'.closed = l.closed ∧
      l'.sends = l.sends ∧ l'.connects <:+ l.connects) ∨
    (l.sock = none ∧ ∃ l', l.ensureConnected = (l',false) ∧ l'.sock = none ∧ l'.closed = l.closed ∧
      l'.sends = l.sends) := by
  rw [ensureConnected]
  cases hsock : l.sock with
  | some taken => exact .inl ⟨⟨taken,rfl⟩,rfl⟩
  | none =>
    dsimp only
    split_ifs with hwait hconnect
    · exact .inr (.inr ⟨rfl,_,rfl,rfl,rfl,rfl⟩)
    · exact .inr (.inl ⟨rfl,_,rfl,rfl,rfl,rfl,List.tail_suffix _⟩)
    · exact .inr (.inr ⟨rfl,_,rfl,rfl,rfl,rfl⟩)

/-- A buffer over an open socket. -/
lemma frame_sent {taken : List UInt8} (h : l.sock = some taken) :
    ∃ went, Sent l taken b.bytes (match l.sendAll b.headerBytes with
      | (l,false) => l
      | (l,true) => (l.rleStream b.data).1,went) := by
  have hhdr := sendAll_sent h b.headerBytes
  generalize l.sendAll b.headerBytes = first at hhdr ⊢
  obtain ⟨l₁,went⟩ := first
  cases went with
  | false => exact ⟨false,hhdr.cut_append _⟩
  | true => exact ⟨_,hhdr.append (rleStreamFrom_sent hhdr.sock [] b.data 0).1⟩

/-- A connection took the frames of some buffers; the last of them may be cut off. -/
structure Carried (c : List UInt8) (p : List Buffer) : Prop where
  isPrefix : c <+: stream p
  whole : stream p.dropLast <+: c

lemma carried_stream (p : List Buffer) : Carried (stream p) p := by
  refine ⟨List.prefix_rfl,?_⟩
  obtain ⟨last,hlast⟩ := List.dropLast_prefix p
  nth_rewrite 2 [← hlast]
  rw [stream_append]
  exact List.prefix_append _ _

/-- The buffers of the connections there have been, and of the open one. -/
structure Carries (l : Link) (sent : List Buffer) (parts : List (List Buffer)) (now : List Buffer) :
    Prop where
  order : (parts.flatten ++ now).Sublist (sent.filter fun b => b.Sendable)
  closed : List.Forall₂ Carried l.closed parts
  sock : ∀ taken ∈ l.sock, taken = stream now
  fresh : l.sock = none → now = []

lemma Carries.skip {parts : List (List Buffer)} {now : List Buffer} (h : Carries l sent parts now)
    {l' : Link} (hsock : l'.sock = l.sock) (hclosed : l'.closed = l.closed) (b : Buffer) :
    Carries l' (sent ++ [b]) parts now := by
  refine ⟨h.order.trans ?_,hclosed ▸ h.closed,hsock ▸ h.sock,hsock ▸ h.fresh⟩
  rw [List.filter_append]
  exact List.sublist_append_left _ _

/-- What has been sent of a buffer is the end of the open connection, or of the one it closed. -/
lemma Carries.send {parts : List (List Buffer)} {now : List Buffer} (h : Carries l sent parts now)
    (hb : b.Sendable) {l₁ l' : Link} {went : Bool} (hclosed : l₁.closed = l.closed)
    (hsent : Sent l₁ (stream now) b.bytes (l',went)) :
    ∃ parts' now', Carries l' (sent ++ [b]) parts' now' := by
  have horder : (parts.flatten ++ (now ++ [b])).Sublist
      ((sent ++ [b]).filter fun b => b.Sendable) := by
    rw [List.filter_append, ← List.append_assoc]
    refine h.order.append ?_
    simp [hb]
  cases hsent with
  | whole sends hsuffix =>
    refine ⟨parts,now ++ [b],horder,hclosed ▸ h.closed,?_,by simp⟩
    rintro taken htaken
    obtain rfl : stream now ++ b.bytes = taken := by simpa using htaken
    simp [stream]
  | cut sends k hk hmem =>
    refine ⟨parts ++ [now ++ [b]],[],by simpa using horder,?_,by simp,fun _ => rfl⟩
    rw [hclosed]
    refine List.rel_append h.closed (.cons ⟨?_,?_⟩ .nil)
    · rw [stream_append]
      refine (List.prefix_append_right_inj _).mpr ?_
      simpa [stream] using List.take_prefix k b.bytes
    · rw [List.dropLast_concat]
      exact List.prefix_append _ _

theorem sendBuffer_carries {parts : List (List Buffer)} {now : List Buffer}
    (h : Carries l sent parts now) (b : Buffer) :
    ∃ parts' now', Carries (l.sendBuffer b) (sent ++ [b]) parts' now' := by
  rw [sendBuffer]
  split_ifs with hsize
  · exact ⟨parts,now,h.skip rfl rfl b⟩
  · have hb : b.Sendable := by
      rw [not_or, not_lt] at hsize
      exact hsize
    obtain ⟨⟨taken,hsock⟩,hconn⟩ | ⟨hsock,l₁,hconn,hsock₁,hclosed,-,-⟩ |
        ⟨hsock,l₁,hconn,hsock₁,hclosed,-⟩ := l.ensureConnected_cases
    · simp only [hconn]
      obtain ⟨went,hsent⟩ := frame_sent (b := b) hsock
      rw [h.sock taken hsock] at hsent
      exact h.send hb rfl hsent
    · simp only [hconn]
      obtain ⟨went,hsent⟩ := frame_sent (b := b) hsock₁
      obtain rfl := h.fresh hsock
      exact h.send hb hclosed hsent
    · simp only [hconn]
      exact ⟨parts,now,h.skip (hsock₁.trans hsock.symm) hclosed b⟩

theorem run_carries {parts : List (List Buffer)} {now : List Buffer} (h : Carries l sent parts now)
    (bs : List Buffer) : ∃ parts' now', Carries (l.run bs) (sent ++ bs) parts' now' := by
  induction bs generalizing l sent parts now with
  | nil => exact ⟨parts,now,by simpa [run] using h⟩
  | cons b bs ih =>
    obtain ⟨parts',now',h'⟩ := sendBuffer_carries h b
    simpa [run] using ih h'

/-- Before the first call. -/
def Unused (l : Link) : Prop := l.sock = none ∧ l.closed = []

/-- Whatever sockets answer, wherever connections are cut and however little of one arrives, the
connections carry buffers of the calls in their order, each once, and the receiver dumps those of a
connection from the first on, as they were handed over. -/
theorem run_faithful (h : l.Unused) (bs : List Buffer) : ∃ parts : List (List Buffer),
    parts.flatten.Sublist (bs.filter fun b => b.Sendable) ∧
    List.Forall₂ (fun c p => Carried c p ∧ ∀ arrived, arrived <+: c → ∀ reads disk maxFrame,
      ∃ q, Faithful p arrived reads disk maxFrame q) (l.run bs).connections parts := by
  have hstart : Carries l [] [] [] := by
    refine ⟨List.Sublist.refl _,by rw [h.2]; exact .nil,?_,fun _ => rfl⟩
    rw [h.1]
    simp
  obtain ⟨parts,now,hrun⟩ := run_carries hstart bs
  rw [List.nil_append] at hrun
  have hsendable : ∀ p ∈ parts ++ [now], ∀ b ∈ p, b.Sendable := by
    intro p hp b hb
    have hmem : b ∈ (parts ++ [now]).flatten := List.mem_flatten.mpr ⟨p,hp,hb⟩
    rw [List.flatten_append, List.flatten_singleton] at hmem
    simpa using (List.mem_filter.mp (hrun.order.subset hmem)).2
  have hfaithful : ∀ p ∈ parts ++ [now], ∀ c, Carried c p → Carried c p ∧
      ∀ arrived, arrived <+: c → ∀ reads disk maxFrame,
        ∃ q, Faithful p arrived reads disk maxFrame q :=
    fun p hp c hc => ⟨hc,fun arrived harrived reads disk maxFrame =>
      handleConn_faithful (hsendable p hp) (harrived.trans hc.isPrefix)⟩
  have hclosed : List.Forall₂ (fun c p => Carried c p ∧ ∀ arrived, arrived <+: c →
      ∀ reads disk maxFrame, ∃ q, Faithful p arrived reads disk maxFrame q)
      (l.run bs).closed parts := by
    refine List.forall₂_iff_get.mpr ⟨hrun.closed.length_eq,fun i hi hi' => ?_⟩
    exact hfaithful _ (List.mem_append_left _ (List.get_mem _ _)) _ (hrun.closed.get hi hi')
  cases hsock : (l.run bs).sock with
  | none =>
    refine ⟨parts,(List.sublist_append_left _ _).trans hrun.order,?_⟩
    rw [connections, hsock]
    simpa using hclosed
  | some taken =>
    refine ⟨parts ++ [now],by simpa using hrun.order,?_⟩
    rw [connections, hsock]
    refine List.rel_append hclosed (.cons ?_ .nil)
    rw [hrun.sock taken hsock]
    exact hfaithful now (by simp) _ (carried_stream now)

/-- A buffer with a run of zeroes. -/
def runBuffer : Buffer := ⟨1,1,0,0,1,[5,0,0,0,0,0,0,0,0,9]⟩

theorem run_faithful_cut : ∃ parts : List (List Buffer),
    parts.flatten.Sublist ([runBuffer,runBuffer].filter fun b => b.Sendable) ∧
    List.Forall₂ (fun c p => Carried c p ∧ ∀ arrived, arrived <+: c → ∀ reads disk maxFrame,
      ∃ q, Faithful p arrived reads disk maxFrame q)
      ((⟨none,[],0,[],[30,0]⟩ : Link).run [runBuffer,runBuffer]).connections parts :=
  run_faithful ⟨rfl,rfl⟩ [runBuffer,runBuffer]

end Run

section Clear

variable {l l₁ l' : Link} {b : Buffer} {sent : List Buffer} {went : Bool}

/-- Nothing has failed so far, and nothing will. -/
structure Clear (l : Link) (sent : List Buffer) : Prop where
  closed : l.closed = []
  sends : 0 ∉ l.sends
  connects : false ∉ l.connects
  sock : (l.sock = none ∧ l.sinceConnectTry = 0 ∧ (sent.filter fun b => b.Sendable) = []) ∨
    l.sock = some (stream (sent.filter fun b => b.Sendable))

/-- There is a socket to send over, with all there was to send taken. -/
lemma Clear.connected (h : Clear l sent) :
    ∃ l₁, l.ensureConnected = (l₁,true) ∧ Clear l₁ sent ∧
      l₁.sock = some (stream (sent.filter fun b => b.Sendable)) := by
  rw [ensureConnected]
  obtain ⟨hsock,htry,hnone⟩ | hsock := h.sock
  · have hhead : l.connects.headD true = true := by
      cases hconnects : l.connects with
      | nil => rfl
      | cons c rest =>
        have hboth : c = true ∧ false ∉ rest := by simpa [hconnects] using h.connects
        exact hboth.1
    have hstream : stream (sent.filter fun b => b.Sendable) = [] := by rw [hnone]; rfl
    rw [hsock, htry]
    simp only [ne_eq, not_true_eq_false, false_and, if_false, hhead, if_true]
    refine ⟨_,rfl,⟨h.closed,h.sends,?_,.inr ?_⟩,?_⟩
    · exact fun hmem => h.connects (List.mem_of_mem_tail hmem)
    · rw [hstream]
    · rw [hstream]
  · simp only [hsock]
    exact ⟨l,rfl,h,hsock⟩

lemma Clear.send (h : Clear l₁ sent) (hb : b.Sendable)
    (hsent : Sent l₁ (stream (sent.filter fun b => b.Sendable)) b.bytes (l',went)) :
    Clear l' (sent ++ [b]) := by
  cases hsent with
  | whole sends hsuffix =>
    refine ⟨h.closed,fun hmem => h.sends (hsuffix.subset hmem),h.connects,.inr ?_⟩
    simp [List.filter_append, hb, stream]
  | cut sends k hk hmem => exact absurd hmem h.sends

theorem sendBuffer_clear (h : Clear l sent) (b : Buffer) : Clear (l.sendBuffer b) (sent ++ [b]) := by
  rw [sendBuffer]
  split_ifs with hsize
  · have hb : ¬b.Sendable := fun hb => hsize.elim hb.1 fun hlt => absurd hb.2 (not_le.mpr hlt)
    have hfilter : ((sent ++ [b]).filter fun b => b.Sendable) = sent.filter fun b => b.Sendable := by
      simp [List.filter_append, hb]
    exact ⟨h.closed,h.sends,h.connects,by rw [hfilter]; exact h.sock⟩
  · have hb : b.Sendable := by
      rw [not_or, not_lt] at hsize
      exact hsize
    obtain ⟨l₁,hconn,hclear,hsock⟩ := h.connected
    simp only [hconn]
    obtain ⟨went,hsent⟩ := frame_sent (b := b) hsock
    exact hclear.send hb hsent

theorem run_clear (h : Clear l sent) (bs : List Buffer) : Clear (l.run bs) (sent ++ bs) := by
  induction bs generalizing l sent with
  | nil => simpa [run] using h
  | cons b bs ih => simpa [run] using ih (sendBuffer_clear h b)

/-- Where no send, connect, read or write fails, every buffer that the console sends is dumped, once,
in order and as it was handed over, however the bytes are cut into sends and reads. -/
theorem run_received (h : l.Unused) (htry : l.sinceConnectTry = 0) (hsends : 0 ∉ l.sends)
    (hconnects : false ∉ l.connects) (bs : List Buffer) (reads : List ReadAnswer)
    (hreads : .failed ∉ reads) (disk : List Bool) (hdisk : false ∉ disk) :
    ((l.run bs).connections.flatMap fun c => (handleConn disk none ⟨c,reads⟩).1) =
        (bs.filter fun b => b.Sendable).map Buffer.received := by
  have hclear : Clear l [] := ⟨h.2,hsends,hconnects,.inl ⟨h.1,htry,rfl⟩⟩
  have hrun := run_clear hclear bs
  rw [List.nil_append] at hrun
  obtain ⟨hsock,-,hnone⟩ | hsock := hrun.sock
  · rw [connections, hrun.closed, hsock, hnone]
    rfl
  · have hsendable : ∀ b ∈ bs.filter fun b => b.Sendable, b.Sendable := fun b hb => by
      simpa using (List.mem_filter.mp hb).2
    obtain ⟨q,hq⟩ : ∃ q, Faithful (bs.filter fun b => b.Sendable)
        (stream (bs.filter fun b => b.Sendable)) reads disk none q :=
      handleConn_faithful hsendable List.prefix_rfl
    have hall := hq.whole hreads hdisk rfl _ List.prefix_rfl List.prefix_rfl
    rw [connections, hrun.closed, hsock, List.nil_append, Option.toList_some, List.flatMap_singleton,
      hq.dumps, hq.isPrefix.eq_of_length_le hall.length_le]

theorem run_received_pieces : (((⟨none,[],0,[true],[1,30]⟩ : Link).run [runBuffer]).connections.flatMap
    fun c => (handleConn [true] none ⟨c,[.interrupted,.bytes 3]⟩).1) =
      ([runBuffer].filter fun b => b.Sendable).map Buffer.received :=
  run_received ⟨rfl,rfl⟩ rfl (by decide) (by decide) [runBuffer] _ (by simp) _ (by decide)

end Clear

end Link

end Unemups4.Scrape

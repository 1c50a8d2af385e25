import Mathlib

/-! PM4 command buffers: the header walk of the decoder, the Type-3 header of the
emitter, and the padding of a packet to the slot the guest reserved for it. -/
namespace Unemups4.Gnm

abbrev Dword := BitVec 32

inductive Pm4Type where
  | type0
  | type1
  | type2
  | type3
  deriving DecidableEq, Repr

inductive Pm4Packet where
  | type3 (opcode : BitVec 8) (count : ℕ) (body : List Dword)
  | type0 (baseIndex : BitVec 16) (count : ℕ) (body : List Dword)
  | type2
  | truncated (header : Dword)
  deriving DecidableEq, Repr

def Pm4Packet.isTruncated : Pm4Packet → Bool
  | truncated _ => true
  | _ => false

def headerType (header : Dword) : Pm4Type :=
  match (header >>> 30).toNat with
  | 0 => .type0
  | 1 => .type1
  | 2 => .type2
  | _ => .type3

/-- The count field plus one. -/
def bodyLen (header : Dword) : ℕ := ((header >>> 16) &&& 0x3fff#32).toNat+1

/-- The packet of a Type-3 or Type-0 header with its body. -/
def bodied (header : Dword) (body : List Dword) : Pm4Packet :=
  match headerType header with
  | .type3 => .type3 (((header >>> 8) &&& 0xff#32).setWidth 8) (bodyLen header) body
  | _ => .type0 ((header &&& 0xffff#32).setWidth 16) (bodyLen header) body

/-- A walk over a command buffer: the dwords from its position on. -/
structure Decoder where
  rest : List Dword
  done : Bool

namespace Decoder

def next (d : Decoder) : Option (Pm4Packet × Decoder) :=
  match d.rest with
  | [] => none
  | header :: tail =>
      if d.done then none
      else if headerType header = .type2 then some (.type2,⟨tail,false⟩)
      else if headerType header = .type1 ∨ tail.length < bodyLen header then
        some (.truncated header,⟨header :: tail,true⟩)
      else
        some (bodied header (tail.take (bodyLen header)),⟨tail.drop (bodyLen header),false⟩)

/-- The packets of the next `n` steps. -/
def collect : ℕ → Decoder → List Pm4Packet
  | 0, _ => []
  | n+1, d =>
      match d.next with
      | none => []
      | some (packet,d) => packet :: collect n d

end Decoder

/-- The whole walk; every step but the last consumes a dword. -/
def decode (words : List Dword) : List Pm4Packet :=
  Decoder.collect (words.length+1) ⟨words,false⟩

/-- The walk reaches the end of the buffer without a malformed packet. -/
def Complete (words : List Dword) : Prop := ∀ packet ∈ decode words, packet.isTruncated = false

instance : DecidablePred Complete := fun words =>
  inferInstanceAs (Decidable (∀ packet ∈ decode words, packet.isTruncated = false))

def itNop : BitVec 8 := 0x10#8

/-- `body_len` is at least one. -/
def t3Header (opcode : BitVec 8) (len : ℕ) : Dword :=
  (0b11#32 <<< 30) ||| ((BitVec.ofNat 32 (len-1) &&& 0x3fff#32) <<< 16) |||
    (opcode.setWidth 32 <<< 8)

def type2Nop : Dword := 0b10#32 <<< 30

def maxNopFillDwords : ℕ := 1+(0x3fff+1)

def padToReserved (packet : List Dword) (reserved : BitVec 32) : List Dword :=
  let reserved := reserved.toNat
  if reserved ≤ packet.length then packet
  else
    let gap := reserved-packet.length
    if gap > maxNopFillDwords then packet
    else if gap = 1 then packet ++ [type2Nop]
    else packet ++ t3Header itNop (gap-1) :: List.replicate (gap-1) 0

namespace Decoder

lemma bodied_isTruncated (header : Dword) (body : List Dword) :
    (bodied header body).isTruncated = false := by
  unfold bodied
  split <;> rfl

lemma next_done (rest : List Dword) : (⟨rest,true⟩ : Decoder).next = none := by
  cases rest <;> simp [next]

/-- The three things a step can do. -/
lemma next_cases {rest : List Dword} {d : Decoder} {packet : Pm4Packet}
    (h : (⟨rest,false⟩ : Decoder).next = some (packet,d)) :
    ∃ header tail, rest = header :: tail ∧
      (headerType header = .type2 ∧ packet = .type2 ∧ d = ⟨tail,false⟩ ∨
        headerType header ≠ .type2 ∧ headerType header ≠ .type1 ∧ bodyLen header ≤ tail.length ∧
          packet = bodied header (tail.take (bodyLen header)) ∧
          d = ⟨tail.drop (bodyLen header),false⟩ ∨
        packet = .truncated header ∧ d.done = true) := by
  cases rest with
  | nil => cases h
  | cons header tail =>
    refine ⟨header,tail,rfl,?_⟩
    simp only [next, Bool.false_eq_true, if_false] at h
    split_ifs at h with htype2 hstop
    · cases h
      exact .inl ⟨htype2,rfl,rfl⟩
    · cases h
      exact .inr (.inr ⟨rfl,rfl⟩)
    · cases h
      rw [not_or, not_lt] at hstop
      exact .inr (.inl ⟨htype2,hstop.1,hstop.2,rfl,rfl⟩)

/-- What a step that is not a malformed packet leaves of the buffer. -/
lemma next_rest {rest : List Dword} {d : Decoder} {packet : Pm4Packet}
    (h : (⟨rest,false⟩ : Decoder).next = some (packet,d)) (hp : packet.isTruncated = false) :
    d.done = false ∧ d.rest.length < rest.length := by
  obtain ⟨header,tail,rfl,⟨-,-,rfl⟩ | ⟨-,-,-,-,rfl⟩ | ⟨rfl,-⟩⟩ := next_cases h
  · simp
  · simp
  · cases hp

/-- A well-formed packet decodes alike whatever follows it. -/
lemma next_append {p q : List Dword} {d : Decoder} {packet : Pm4Packet}
    (h : (⟨p,false⟩ : Decoder).next = some (packet,d)) (hp : packet.isTruncated = false) :
    (⟨p ++ q,false⟩ : Decoder).next = some (packet,⟨d.rest ++ q,false⟩) := by
  obtain ⟨header,tail,rfl,⟨htype,rfl,rfl⟩ | ⟨htype2,htype1,hlen,rfl,rfl⟩ | ⟨rfl,-⟩⟩ := next_cases h
  · simp [next, htype]
  · have hlen' : ¬(tail ++ q).length < bodyLen header := by
      rw [List.length_append]
      omega
    simp only [next, List.cons_append, Bool.false_eq_true, if_false, htype2, htype1, false_or,
      hlen', List.take_append_of_le_length hlen, List.drop_append_of_le_length hlen]
  · cases hp

/-- More steps than dwords add nothing. -/
lemma collect_enough {rest : List Dword} {m n : ℕ} (hm : rest.length < m) (hn : rest.length < n) :
    collect m ⟨rest,false⟩ = collect n ⟨rest,false⟩ := by
  induction m generalizing rest n with
  | zero => omega
  | succ m ih =>
    obtain ⟨n,rfl⟩ := Nat.exists_eq_succ_of_ne_zero (show n ≠ 0 by omega)
    unfold collect
    cases hnext : (⟨rest,false⟩ : Decoder).next with
    | none => rfl
    | some step =>
      obtain ⟨packet,rest',done⟩ := step
      dsimp only
      cases done with
      | false =>
        have hp : packet.isTruncated = false := by
          obtain ⟨_,_,-,⟨-,rfl,-⟩ | ⟨-,-,-,rfl,-⟩ | ⟨-,hdone⟩⟩ := next_cases hnext
          · rfl
          · exact bodied_isTruncated _ _
          · cases hdone
        have hlt : rest'.length < rest.length := (next_rest hnext hp).2
        rw [ih (show rest'.length < m by omega) (show rest'.length < n by omega)]
      | true =>
        have hstop : ∀ k, collect k ⟨rest',true⟩ = [] := by
          intro k
          cases k <;> simp [collect, next_done]
        rw [hstop, hstop]

end Decoder

@[simp] lemma decode_nil : decode [] = [] := rfl

lemma decode_cons {words : List Dword} {packet : Pm4Packet} {d : Decoder}
    (h : (⟨words,false⟩ : Decoder).next = some (packet,d)) (hp : packet.isTruncated = false) :
    decode words = packet :: decode d.rest := by
  obtain ⟨hdone,hlt⟩ := Decoder.next_rest h hp
  obtain ⟨rest,done⟩ := d
  obtain rfl : done = false := hdone
  have hstep : decode words = packet :: Decoder.collect words.length ⟨rest,false⟩ := by
    simp only [decode, Decoder.collect, h]
  rw [hstep, decode, Decoder.collect_enough hlt (Nat.lt_succ_self rest.length)]

/-- A complete buffer decodes to its packets whatever follows it. -/
theorem decode_append {p : List Dword} (hp : Complete p) (q : List Dword) :
    decode (p ++ q) = decode p ++ decode q := by
  induction hn : p.length using Nat.strong_induction_on generalizing p with
  | _ n ih =>
    cases hnext : (⟨p,false⟩ : Decoder).next with
    | none =>
      cases p with
      | nil => simp
      | cons header tail =>
        simp only [Decoder.next, Bool.false_eq_true, if_false] at hnext
        split_ifs at hnext
    | some step =>
      obtain ⟨packet,d⟩ := step
      have hmem : packet ∈ decode p := by simp [decode, Decoder.collect, hnext]
      have hpacket := hp packet hmem
      have hcons := decode_cons hnext hpacket
      have hrest : Complete d.rest := by
        intro k hk
        exact hp k (hcons ▸ List.mem_cons_of_mem _ hk)
      have hlt := (Decoder.next_rest hnext hpacket).2
      rw [hcons, decode_cons (Decoder.next_append hnext hpacket) hpacket,
        ih d.rest.length (by omega) hrest rfl, List.cons_append]

lemma Complete.append {p q : List Dword} (hp : Complete p) (hq : Complete q) : Complete (p ++ q) := by
  intro packet h
  rw [decode_append hp] at h
  rcases List.mem_append.mp h with h | h
  · exact hp packet h
  · exact hq packet h

/-- An emitted Type-3 header as a number: its fields do not overlap. -/
lemma t3Header_toNat (opcode : BitVec 8) {len : ℕ} (h1 : 1 ≤ len) (h2 : len ≤ 0x3fff+1) :
    (t3Header opcode len).toNat = 3*2^30+((len-1)*2^16+opcode.toNat*2^8) := by
  have hop := opcode.isLt
  have hcount : (BitVec.ofNat 32 (len-1) &&& 0x3fff#32).toNat = len-1 := by
    rw [BitVec.toNat_and, BitVec.toNat_ofNat]
    change (len-1) % 2^32 &&& 2^14-1 = len-1
    rw [Nat.and_two_pow_sub_one_eq_mod]
    omega
  have hlow : (len-1)*2^16 ||| opcode.toNat*2^8 = (len-1)*2^16+opcode.toNat*2^8 := by
    rw [Nat.mul_comm (len-1), Nat.two_pow_add_eq_or_of_lt (by omega)]
  have hhigh : 3*2^30 ||| ((len-1)*2^16+opcode.toNat*2^8) =
      3*2^30+((len-1)*2^16+opcode.toNat*2^8) := by
    rw [Nat.mul_comm 3, Nat.two_pow_add_eq_or_of_lt (by omega)]
  rw [← hhigh, ← hlow, t3Header, BitVec.toNat_or, BitVec.toNat_or, BitVec.toNat_shiftLeft,
    BitVec.toNat_shiftLeft, BitVec.toNat_shiftLeft, hcount, BitVec.toNat_setWidth,
    Nat.or_assoc, Nat.shiftLeft_eq, Nat.shiftLeft_eq, Nat.shiftLeft_eq,
    Nat.mod_eq_of_lt (show opcode.toNat < 2^32 by omega),
    Nat.mod_eq_of_lt (show (len-1)*2^16 < 2^32 by omega),
    Nat.mod_eq_of_lt (show opcode.toNat*2^8 < 2^32 by omega)]
  rfl

/-- The decoder reads back the fields of an emitted Type-3 header. -/
lemma t3Header_fields (opcode : BitVec 8) {len : ℕ} (h1 : 1 ≤ len) (h2 : len ≤ 0x3fff+1) :
    headerType (t3Header opcode len) = .type3 ∧ bodyLen (t3Header opcode len) = len ∧
      ((t3Header opcode len >>> 8) &&& 0xff#32).setWidth 8 = opcode := by
  have hop := opcode.isLt
  have hnat := t3Header_toNat opcode h1 h2
  have htype : (t3Header opcode len >>> 30).toNat = 3 := by
    rw [BitVec.toNat_ushiftRight, hnat, Nat.shiftRight_eq_div_pow]
    omega
  have hbody : ((t3Header opcode len >>> 16) &&& 0x3fff#32).toNat = len-1 := by
    rw [BitVec.toNat_and, BitVec.toNat_ushiftRight, hnat, Nat.shiftRight_eq_div_pow]
    change _ &&& 2^14-1 = len-1
    rw [Nat.and_two_pow_sub_one_eq_mod]
    omega
  refine ⟨by simp [headerType, htype],by rw [bodyLen, hbody]; omega,?_⟩
  apply BitVec.eq_of_toNat_eq
  rw [BitVec.toNat_setWidth, BitVec.toNat_and, BitVec.toNat_ushiftRight, hnat,
    Nat.shiftRight_eq_div_pow]
  change (_ &&& 2^8-1) % 2^8 = opcode.toNat
  rw [Nat.and_two_pow_sub_one_eq_mod]
  omega

/-- A filler packet of the given length: header-only, or an `IT_NOP` with a zero body. -/
def filler (gap : ℕ) : Pm4Packet :=
  if gap = 1 then .type2 else .type3 itNop (gap-1) (List.replicate (gap-1) 0)

lemma decode_type2Nop (s : List Dword) : decode (type2Nop :: s) = .type2 :: decode s :=
  decode_cons (d := ⟨s,false⟩) rfl rfl

/-- An emitted Type-3 packet decodes to its body. -/
lemma decode_type3 {opcode : BitVec 8} {body : List Dword} (h1 : 1 ≤ body.length)
    (h2 : body.length ≤ 0x3fff+1) (s : List Dword) :
    decode (t3Header opcode body.length :: (body ++ s)) =
      .type3 opcode body.length body :: decode s := by
  obtain ⟨htype,hbody,hopcode⟩ := t3Header_fields opcode h1 h2
  refine decode_cons (d := ⟨s,false⟩) ?_ rfl
  simp [Decoder.next, htype, hbody, bodied, hopcode]

lemma decode_itNop {len : ℕ} (h1 : 1 ≤ len) (h2 : len ≤ 0x3fff+1) (s : List Dword) :
    decode (t3Header itNop len :: (List.replicate len 0 ++ s)) =
      .type3 itNop len (List.replicate len 0) :: decode s := by
  have hlen : (List.replicate len (0 : Dword)).length = len := List.length_replicate
  have h : decode (t3Header itNop _ :: (List.replicate len 0 ++ s)) = _ :=
    decode_type3 (by rwa [hlen]) (by rwa [hlen]) s
  rwa [hlen] at h

/-- Padding fills the slot and adds one filler between the packets and what follows; a gap
no filler can span leaves the packets as they are. -/
theorem decode_padToReserved {p : List Dword} (hp : Complete p) (reserved : BitVec 32)
    (s : List Dword) :
    (p.length ≤ reserved.toNat ∧ reserved.toNat-p.length ≤ maxNopFillDwords →
      (padToReserved p reserved).length = reserved.toNat ∧
      decode (padToReserved p reserved ++ s) = decode p ++
        (if reserved.toNat = p.length then [] else [filler (reserved.toNat-p.length)]) ++ decode s) ∧
    (¬(p.length ≤ reserved.toNat ∧ reserved.toNat-p.length ≤ maxNopFillDwords) →
      padToReserved p reserved = p) := by
  constructor
  · rintro ⟨hle,hgap⟩
    rcases Nat.eq_or_lt_of_le hle with heq | hlt
    · have hpad : padToReserved p reserved = p := by simp [padToReserved, heq]
      rw [hpad, decode_append hp, if_pos heq.symm, List.append_nil]
      exact ⟨heq,rfl⟩
    · have hfit : ¬reserved.toNat ≤ p.length := by omega
      have hspan : ¬reserved.toNat-p.length > maxNopFillDwords := by omega
      rw [if_neg hlt.ne']
      by_cases hone : reserved.toNat-p.length = 1
      · have hpad : padToReserved p reserved = p ++ [type2Nop] := by
          simp [padToReserved, hfit, hone, maxNopFillDwords]
        rw [hpad, List.append_assoc, decode_append hp, List.singleton_append, decode_type2Nop,
          filler, if_pos hone]
        exact ⟨by simp; omega,by simp⟩
      · have hpad : padToReserved p reserved = p ++ t3Header itNop (reserved.toNat-p.length-1) ::
            List.replicate (reserved.toNat-p.length-1) 0 := by
          simp [padToReserved, hfit, hspan, hone]
        have h2 : reserved.toNat-p.length-1 ≤ 0x3fff+1 := by
          simp only [maxNopFillDwords] at hgap
          omega
        rw [hpad, List.append_assoc, decode_append hp, List.cons_append,
          decode_itNop (by omega) h2, filler, if_neg hone]
        exact ⟨by simp; omega,by simp⟩
  · intro hout
    by_cases hfit : reserved.toNat ≤ p.length
    · simp [padToReserved, hfit]
    · have hspan : reserved.toNat-p.length > maxNopFillDwords := by omega
      simp [padToReserved, hfit, hspan]

/-- A one-dword packet in a three-dword slot, followed by a filler. -/
theorem decode_padToReserved_slot :
    Complete [type2Nop] ∧ decode (padToReserved [type2Nop] 3 ++ [type2Nop]) =
      [.type2,.type3 itNop 1 [0],.type2] := by
  refine ⟨by decide,?_⟩
  have h := ((decode_padToReserved (p := [type2Nop]) (by decide) 3 [type2Nop]).1 (by decide)).2
  rw [h]
  decide

end Unemups4.Gnm

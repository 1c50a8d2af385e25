import Unemups4.DrawRecords
import Unemups4.JsonWritten

/-! What the file of a frame's draws is read back as: the records, unless a key stands in the name of a
file and is not plain. -/
namespace Unemups4.Gnm.Records
open Decimal Deltas Json
open Dump (ShaderDumpRef)
open Json.Parser
open Json.Parser.Spells (plain_lit)

section Texts

lemma plain_digitChar : ∀ n < 16, Spells.plain n.digitChar := by decide

lemma plain_toDigits {b : ℕ} (hone : 1 < b) (hb : b ≤ 16) (n : ℕ) :
    (Nat.toDigits b n).all Spells.plain := by
  induction n using Nat.strong_induction_on with
  | _ n ih =>
    rcases lt_or_ge n b with hn | hn
    · simp [Nat.toDigits_of_lt_base hn,plain_digitChar n (by omega)]
    · have hlast := plain_digitChar (n % b) ((Nat.mod_lt n (by omega)).trans_le hb)
      rw [Nat.toDigits_of_base_le hone hn]
      simpa [hlast] using ih (n/b) (Nat.div_lt_self (by omega) hone)

lemma plain_padded (width n : ℕ) : (padded width n).all Spells.plain := by
  have hzero : Spells.plain '0' := rfl
  simpa [padded,hzero] using plain_toDigits (by decide) le_rfl n

lemma plain_hex (n : ℕ) : (hex n).toList.all Spells.plain := by
  simpa [hex,Spells.plain] using plain_toDigits (by decide) le_rfl n

lemma plain_hexPadded (width n : ℕ) : (hexPadded width n).toList.all Spells.plain := by
  simpa [hexPadded,Spells.plain] using plain_padded width n

lemma plain_nat (n : ℕ) : (toString n).toList.all Spells.plain := by
  change (n.repr).toList.all Spells.plain
  simpa using plain_toDigits (by decide) (by decide) n

/-- A plain text in quotes. -/
lemma quoted_written {s : String} (hs : s.toList.all Spells.plain) :
    Written (quoted s).toList (.string s) True := by
  have h := Written.string (a := True) (fun _ => Spells.plain_text hs) (Keeps.plain hs)
  simpa [quoted] using h

/-- Four digits after `\\u`. -/
lemma hex4_bytes {u : List Char} (hu : ∀ c ∈ u, c.toNat < 128) (hlen : u.length = 4) {v : ℕ}
    (hv : fromStrRadix16 u = some v) (s : List Char) :
    hex4 (bytes (u ++ s)) = .ok (v,bytes s) := by
  have hbytes : (bytes u).length = 4 := by rw [bytes_length_ascii hu,hlen]
  have htake : (bytes u ++ bytes s).take 4 = bytes u := List.take_left' hbytes
  have hdrop : (bytes u ++ bytes s).drop 4 = bytes s := List.drop_left' hbytes
  rw [hex4,bytes_append,if_neg (by rw [List.length_append]; omega),htake,hdrop,fromUtf8_bytes,
    Option.bind_some,hv]

lemma control_digits : ∀ n < 32, fromStrRadix16 (padded 4 n) = some n ∧ (padded 4 n).length = 4 ∧
    scalar n = Char.ofNat n ∧ ¬isHighSurrogate n := by
  decide +kernel

/-- A control character by its number. -/
lemma unicode_control {n : ℕ} (hn : n < 32) (s : List Char) :
    unicode (bytes (padded 4 n ++ s)) = .ok (Char.ofNat n,bytes s) := by
  obtain ⟨hradix,hlen,hscalar,hhigh⟩ := control_digits n hn
  have hascii : ∀ c ∈ padded 4 n, c.toNat < 128 := fun c hc =>
    ascii_of_hexish (hexish_of_fromStrRadix16 hradix c hc)
  rw [unicode,hex4_bytes hascii hlen hradix]
  change (if isHighSurrogate n then _ else Except.ok (scalar n,bytes s)) = _
  rw [if_neg hhigh,hscalar]

lemma spells_escape {t : List Char} {c : Char} (h : ∀ s, escape (bytes (t ++ s)) = .ok (c,bytes s)) :
    Spells ('\\' :: t) [c] := by
  refine ⟨1,by simp,fun fuel acc s => ?_⟩
  rw [Nat.add_comm,List.cons_append,chars_backslash,h]
  rfl

lemma jsonChar_spells (c : Char) : Spells (jsonChar c) [c] := by
  unfold jsonChar
  split_ifs with h₁ h₂ h₃ h₄ h₅ h₆
  · subst h₁
    exact spells_escape fun s => rfl
  · subst h₂
    exact spells_escape fun s => rfl
  · subst h₃
    exact spells_escape fun s => rfl
  · subst h₄
    exact spells_escape fun s => rfl
  · subst h₅
    exact spells_escape fun s => rfl
  · refine spells_escape fun s => ?_
    have := unicode_control h₆ s
    rw [Char.ofNat_toNat] at this
    exact this
  · exact Spells.plain_text (by simp [Spells.plain,h₁,h₂])

lemma keeps_escape {c : Char} (hc : c ∈ escapes) : Keeps .inside ['\\',c] 1 True := by
  intro s n hn
  have hu := (ascii_of_escapes c hc).2
  rw [List.cons_append,List.cons_append,List.nil_append,room,if_neg (by decide),if_pos rfl,room,
    if_neg hu,if_pos hc] at hn
  obtain ⟨k,hk,rfl⟩ := Option.map_eq_some_iff.mp hn
  exact ⟨k,hk,by omega,by simp⟩

lemma keeps_unicode {u : List Char} (hu : ∀ c ∈ u, hexish c) (hlen : u.length = 4) :
    Keeps .inside ('\\' :: 'u' :: u) 1 True := by
  intro s n hn
  match u,hlen with
  | [c₁,c₂,c₃,c₄],_ =>
    simp only [List.mem_cons,List.not_mem_nil,or_false,forall_eq_or_imp,forall_eq] at hu
    simp [room,hu] at hn
    obtain ⟨k,hk,rfl⟩ := hn
    exact ⟨k,hk,by omega,by simp⟩

lemma jsonChar_keeps (c : Char) : Keeps .inside (jsonChar c) 1 True := by
  unfold jsonChar
  split_ifs with h₁ h₂ h₃ h₄ h₅ h₆
  · exact keeps_escape (by simp [escapes])
  · exact keeps_escape (by simp [escapes])
  · exact keeps_escape (by simp [escapes])
  · exact keeps_escape (by simp [escapes])
  · exact keeps_escape (by simp [escapes])
  · obtain ⟨hradix,hlen,-⟩ := control_digits _ h₆
    exact keeps_unicode (hexish_of_fromStrRadix16 hradix) hlen
  · exact Keeps.plain (by simp [Spells.plain,h₁,h₂])

lemma jsonChars_spells (s : List Char) : Spells (s.flatMap jsonChar) s := by
  induction s with
  | nil => exact .nil
  | cons c s ih => exact (jsonChar_spells c).append ih

lemma jsonChars_keeps (s : List Char) : Keeps .inside (s.flatMap jsonChar) s.length True := by
  induction s with
  | nil => exact Keeps.plain rfl
  | cons c s ih =>
    have h := ((jsonChar_keeps c).append ih).iff (and_self_iff)
    rw [Nat.add_comm] at h
    exact h

/-- Any string. -/
lemma jsonStr_written (s : String) : Written (jsonStr s).toList (.string s) True := by
  have h := Written.string (a := True) (fun _ => jsonChars_spells s.toList) (jsonChars_keeps s.toList)
  simpa [jsonStr] using h

def int (i : ℤ) : Json := .number (Numeral.ofInt i).value

lemma toList_int (i : ℤ) : (toString i).toList = (Numeral.ofInt i).text := by
  cases i with
  | ofNat n =>
    have hneg : ¬(n : ℤ) < 0 := by omega
    change n.repr.toList = _
    simp [Numeral.text,Numeral.ofInt,hneg]
  | negSucc n =>
    change ("-" ++ (n+1).repr).toList = _
    simp [Numeral.text,Numeral.ofInt]

lemma int_written (i : ℤ) : Written (toString i).toList (int i) True := by
  rw [toList_int]
  exact .number _

lemma nat_written (n : ℕ) : Written (toString n).toList (int n) True := int_written n

/-- A float as a number, or its text. -/
def floatValue (v : F32) : Json :=
  if v.isFinite then .number v.numeral.value else .string v.display

lemma float_written (v : F32) : Written (jsonF32 v).toList (floatValue v) True := by
  unfold jsonF32 floatValue
  split_ifs with hfinite
  · rw [F32.display,if_pos hfinite,String.toList_ofList]
    exact .number _
  · exact jsonStr_written _

def optionValue {α : Type} (value : α → Json) : Option α → Json
  | some x => value x
  | none => .null

lemma option_written {α : Type} {json : α → String} {value : α → Json} {p : α → Prop}
    (h : ∀ x, Written (json x).toList (value x) (p x)) (o : Option α) :
    Written (jsonOption json o).toList (optionValue value o) (∀ x ∈ o, p x) := by
  cases o with
  | none => exact Written.null.iff (by simp)
  | some x => exact (h x).iff (by simp)

/-- Neither quote nor backslash. -/
def PlainKey (key : String) : Prop := '"' ∉ key.toList ∧ '\\' ∉ key.toList

lemma plainKey_iff (key : String) : PlainKey key ↔ key.toList.all Spells.plain := by
  simp only [PlainKey,List.all_eq_true,Spells.plain,Bool.and_eq_true,decide_eq_true_eq,ne_eq]
  constructor
  · rintro ⟨hquote,hback⟩ c hc
    exact ⟨fun h => hquote (h ▸ hc),fun h => hback (h ▸ hc)⟩
  · exact fun h => ⟨fun hc => (h _ hc).1 rfl,fun hc => (h _ hc).2 rfl⟩

/-- The name of a file by a key, in quotes as it is. -/
lemma path_written (before key after : String) (hbefore : before.toList.all Spells.plain)
    (hafter : Guard after.toList) :
    Written (quoted (before ++ key ++ after)).toList (.string (before ++ key ++ after))
      (PlainKey key) := by
  have hspells (hkey : PlainKey key) : Spells (before.toList ++ (key.toList ++ after.toList))
      (before.toList ++ (key.toList ++ after.toList)) :=
    Spells.plain_text (by
      rw [List.all_append,List.all_append,hbefore,(plainKey_iff key).mp hkey,hafter.plain]
      rfl)
  have hkeeps : Keeps .inside _ _ (PlainKey key) :=
    ((Keeps.plain hbefore).append (hafter.keeps key.toList)).iff (by simp [plainKey_iff])
  have h := Written.string hspells (by simpa using hkeeps)
  simpa [quoted,String.append_assoc] using h

end Texts

section Lists

variable {α : Type} {json : α → String} {value : α → Json} {p : α → Prop}

lemma intercalate_blank (t : List Char) (ts : List (List Char)) :
    [',',' '].intercalate (t :: ts) = [','].intercalate (t :: ts.map (' ' :: ·)) := by
  induction ts generalizing t with
  | nil => simp
  | cons u ts ih =>
    rw [List.map_cons,List.intercalate_cons_cons,List.intercalate_cons_cons,ih u]
    cases ts with
    | nil => simp
    | cons v ts => simp [List.intercalate_cons_cons]

lemma array_written {text : String} {vs : List Json} {q : Prop} (xs : List Parser.Item) (after : String)
    (hxs : ∀ x ∈ xs, Written x.text x.value x.plain)
    (htext : text.toList = arrayText (xs.map Parser.Item.text) after)
    (hvs : vs = xs.map Parser.Item.value)
    (hplain : (∀ x ∈ xs, x.plain) ↔ q) (hafter : after.toList.all blank) :
    Written text.toList (.array vs) q := by
  rw [htext,hvs]
  exact (Written.array xs after hxs hafter).iff hplain

/-- Items with a comma and a blank between them. -/
lemma commas_written (h : ∀ x, Written (json x).toList (value x) (p x)) (xs : List α) :
    Written ("[" ++ ", ".intercalate (xs.map json) ++ "]").toList (.array (xs.map value))
      (∀ x ∈ xs, p x) := by
  cases xs with
  | nil => exact array_written [] "" (by simp) (by simp [arrayText]) (by simp) (by simp) rfl
  | cons x xs =>
    refine array_written
      (⟨(json x).toList,value x,p x⟩ :: xs.map fun y => ⟨' ' :: (json y).toList,value y,p y⟩) ""
      ?_ ?_ (by simp) (by simp) rfl
    · simp only [List.forall_mem_cons,List.forall_mem_map]
      exact ⟨h x,fun y _ => (h y).blanks (s := [' ']) rfl⟩
    · have hcommas := intercalate_blank (json x).toList (xs.map fun y => (json y).toList)
      simp [arrayText,String.toList_intercalate,Function.comp_def,hcommas]

/-- The entries of a list of a draw, each on a line of its own. -/
lemma entries_written (h : ∀ x, Written (json x).toList (value x) (p x)) (xs : List α) :
    Written ("[" ++ entriesJson (xs.map json)).toList (.array (xs.map value)) (∀ x ∈ xs, p x) := by
  refine array_written (xs.map fun x => ⟨(json x).toList,value x,p x⟩)
    (if xs = [] then "" else "\n      ") ?_ ?_ (by simp) (by simp) ?_
  · simp only [List.forall_mem_map]
    exact fun x _ => h x
  · cases xs with
    | nil => simp [entriesJson,arrayText]
    | cons x xs => simp [entriesJson,arrayText,String.toList_intercalate,Function.comp_def]
  · split_ifs <;> rfl

lemma toList_lines (ts : List String) (hne : ts ≠ []) :
    '\n' :: (lines ts).toList = [','].intercalate (ts.map fun t => '\n' :: t.toList) ++ ['\n'] := by
  induction ts with
  | nil => contradiction
  | cons t ts ih =>
    cases ts with
    | nil => simp [lines]
    | cons u ts =>
      have := ih (by simp)
      simp [lines,List.intercalate_cons_cons] at this ⊢
      rw [this]

lemma lines_written (h : ∀ x, Written (json x).toList (value x) (p x)) (xs : List α) :
    Written ("[\n" ++ lines (xs.map json) ++ "  ]").toList (.array (xs.map value)) (∀ x ∈ xs, p x) := by
  refine array_written (xs.map fun x => ⟨'\n' :: (json x).toList,value x,p x⟩) "\n  "
    ?_ ?_ (by simp) (by simp) rfl
  · simp only [List.forall_mem_map]
    exact fun x _ => (h x).blanks (s := ['\n']) rfl
  · cases xs with
    | nil => simp [lines,arrayText]
    | cons x xs =>
      have hlines := toList_lines ((x :: xs).map json) (by simp)
      have htext : ("[\n" ++ lines ((x :: xs).map json) ++ "  ]").toList =
          '[' :: ('\n' :: (lines ((x :: xs).map json)).toList ++ "  ]".toList) := by
        simp
      rw [htext,hlines]
      simp [arrayText,Function.comp_def]

end Lists

section Objects

lemma toString_true : toString true = "true" := rfl

lemma toString_false : toString false = "false" := rfl

/-- The members behind the first one, and the end of the object. -/
def membersText : List Member → String → List Char
  | [],after => after.toList ++ ['}']
  | x :: xs,after =>
      ',' :: (x.before.toList ++
        '"' :: (x.key.toList ++ '"' :: ':' :: (x.text.toList ++ membersText xs after)))

lemma intercalate_members (x : Member) (xs : List Member) (after : String) :
    [','].intercalate ((x :: xs).map Member.chars) ++ (after.toList ++ ['}']) =
      x.before.toList ++
        '"' :: (x.key.toList ++ '"' :: ':' :: (x.text.toList ++ membersText xs after)) := by
  induction xs generalizing x with
  | nil => simp [Member.chars,membersText]
  | cons y ys ih =>
    rw [List.map_cons,List.map_cons,List.intercalate_cons_cons,← List.map_cons,List.append_assoc,
      List.append_assoc,ih]
    simp [Member.chars,membersText]

/-- An object as one chain of texts, in which each literal stands for itself. -/
lemma objectText_cons (x : Member) (xs : List Member) (after : String) :
    objectText (x :: xs) after = '{' ::
      (x.before.toList ++ '"' :: (x.key.toList ++ '"' :: ':' :: (x.text.toList ++ membersText xs after))) :=
  congrArg (List.cons '{') (intercalate_members x xs after)

lemma object_written {text : String} (xs : List Framed) (after : String)
    (htext : text.toList = objectText (xs.map Framed.toMember) after) (hne : xs ≠ [])
    (hkeys : (xs.map fun x => x.key).Nodup) (hafter : after.toList.all blank) :
    Written text.toList (membersValue (xs.map Framed.toMember)) (∀ x ∈ xs, x.plain) := by
  rw [htext]
  exact .object xs after hne hkeys hafter

def slotValue (s : Slot) : Json := ofMembers [("set",int s.set),("binding",int s.binding)]

lemma slot_written (s : Slot) : Written (slotJson s).toList (slotValue s) True :=
  (object_written [framed "" "set" (nat_written s.set) rfl (plain_lit rfl),
      framed " " "binding" (nat_written s.binding) rfl (plain_lit rfl)] ""
    (by simp [slotJson,objectText,Member.chars,framed]) (by simp) (by simp [framed]) rfl).iff
    (by simp [framed])

def vSharpValue (d : BufferDesc) : Json :=
  ofMembers [("base",.string (hex d.base)),("stride",int d.stride),("num_records",int d.numRecords),
    ("dfmt",.string (dataFormatDebug d.dfmt)),("nfmt",.string (numFormatDebug d.nfmt)),
    ("dst_sel",.array (d.dstSel.toList.map fun s => int s.toNat)),("byte_span",int d.byteSpan),
    ("null",.bool d.isNull)]

lemma vSharp_written (d : BufferDesc) : Written (vSharpJson d).toList (vSharpValue d) True := by
  refine (object_written
    [framed "" "base" (quoted_written (plain_hex d.base)) rfl (plain_lit rfl),
      framed " " "stride" (nat_written d.stride) rfl (plain_lit rfl),
      framed " " "num_records" (nat_written d.numRecords) rfl (plain_lit rfl),
      framed " " "dfmt" (jsonStr_written (dataFormatDebug d.dfmt)) rfl (plain_lit rfl),
      framed " " "nfmt" (jsonStr_written (numFormatDebug d.nfmt)) rfl (plain_lit rfl),
      framed " " "dst_sel" (commas_written (fun s : BitVec 32 => nat_written s.toNat) d.dstSel.toList)
        rfl (plain_lit rfl),
      framed " " "byte_span" (nat_written d.byteSpan) rfl (plain_lit rfl),
      framed " " "null" (.bool d.isNull) rfl (plain_lit rfl)] "" ?_
    (by simp) (by simp [framed]) rfl).iff (by simp [framed])
  unfold vSharpJson
  simp only [objectText_cons,membersText,List.map_cons,List.map_nil,String.toList_append,
    List.append_assoc,framed,quoted]
  repeat rw [String.toList_ofList]
  rfl

def tSharpValue (t : TextureDesc) : Json :=
  ofMembers [("base",.string (hexWord t.base)),("width",int t.width),("height",int t.height),
    ("dfmt",int t.dfmt),("nfmt",int t.nfmt),("tiling_index",int t.tilingIndex),
    ("tile_kind",.string (tileKindDebug (Gcn.tileKind t.tilingIndex))),("pitch",int t.pitch),
    ("byte_span",int (textureByteSpan t))]

lemma tSharp_written (t : TextureDesc) : Written (tSharpJson t).toList (tSharpValue t) True := by
  refine (object_written
    [framed "" "base" (quoted_written (plain_hex t.base.toNat)) rfl (plain_lit rfl),
      framed " " "width" (nat_written t.width) rfl (plain_lit rfl),
      framed " " "height" (nat_written t.height) rfl (plain_lit rfl),
      framed " " "dfmt" (nat_written t.dfmt) rfl (plain_lit rfl),
      framed " " "nfmt" (nat_written t.nfmt) rfl (plain_lit rfl),
      framed " " "tiling_index" (nat_written t.tilingIndex) rfl (plain_lit rfl),
      framed " " "tile_kind" (jsonStr_written (tileKindDebug (Gcn.tileKind t.tilingIndex)))
        rfl (plain_lit rfl),
      framed " " "pitch" (nat_written t.pitch) rfl (plain_lit rfl),
      framed " " "byte_span" (nat_written (textureByteSpan t)) rfl (plain_lit rfl)] "" ?_
    (by simp) (by simp [framed]) rfl).iff (by simp [framed])
  unfold tSharpJson
  simp only [objectText_cons,membersText,List.map_cons,List.map_nil,String.toList_append,
    List.append_assoc,framed,quoted,hexWord]
  repeat rw [String.toList_ofList]
  rfl

def sSharpValue (s : SamplerState) : Json :=
  ofMembers [("bilinear",.bool s.bilinear),("clamp_x",.string (addressModeDebug s.clampX)),
    ("clamp_y",.string (addressModeDebug s.clampY))]

lemma sSharp_written (s : SamplerState) : Written (sSharpJson s).toList (sSharpValue s) True := by
  refine (object_written
    [framed "" "bilinear" (.bool s.bilinear) rfl (plain_lit rfl),
      framed " " "clamp_x" (jsonStr_written (addressModeDebug s.clampX)) rfl (plain_lit rfl),
      framed " " "clamp_y" (jsonStr_written (addressModeDebug s.clampY)) rfl (plain_lit rfl)] "" ?_
    (by simp) (by simp [framed]) rfl).iff (by simp [framed])
  unfold sSharpJson
  simp only [objectText_cons,membersText,List.map_cons,List.map_nil,String.toList_append,
    List.append_assoc,framed]
  repeat rw [String.toList_ofList]
  rfl

def samplerBoundValue (s : SamplerDesc) : Json :=
  ofMembers [("mag_filter",.string (filterDebug s.magFilter)),
    ("min_filter",.string (filterDebug s.minFilter)),
    ("address_mode_u",.string (addressModeDebug s.addressModeU)),
    ("address_mode_v",.string (addressModeDebug s.addressModeV))]

lemma samplerBound_written (s : SamplerDesc) :
    Written (samplerBoundJson s).toList (samplerBoundValue s) True := by
  refine (object_written
    [framed "" "mag_filter" (jsonStr_written (filterDebug s.magFilter)) rfl (plain_lit rfl),
      framed " " "min_filter" (jsonStr_written (filterDebug s.minFilter)) rfl (plain_lit rfl),
      framed " " "address_mode_u" (jsonStr_written (addressModeDebug s.addressModeU)) rfl (plain_lit rfl),
      framed " " "address_mode_v" (jsonStr_written (addressModeDebug s.addressModeV))
        rfl (plain_lit rfl)] "" ?_
    (by simp) (by simp [framed]) rfl).iff (by simp [framed])
  unfold samplerBoundJson
  simp only [objectText_cons,membersText,List.map_cons,List.map_nil,String.toList_append,
    List.append_assoc,framed]
  repeat rw [String.toList_ofList]
  rfl

/-- The kind of a target, and the base and the size of an offscreen one. -/
def targetKindValues : TargetKind → String × Json × Json
  | .offscreen base size => ("Offscreen",.string (hexWord base),int size)
  | .videoout => ("Videoout",.null,.null)

def targetValue (t : TargetDesc) : Json :=
  ofMembers [("kind",.string (targetKindValues t.kind).1),("base",(targetKindValues t.kind).2.1),
    ("size",(targetKindValues t.kind).2.2),("width",int t.width),("height",int t.height),
    ("pitch",int t.pitch),("format",.string (colorFormatDebug t.format)),
    ("tiling",.string (tilingDebug t.tiling))]

/-- The text of a target by its kind, its base and its size. -/
lemma target_members {base size : String} {b z : Json} (t : TargetDesc) (kind : String)
    (hbase : Written base.toList b True) (hsize : Written size.toList z True) :
    Written ("\x7b\"kind\": " ++ jsonStr kind ++ ", \"base\": " ++ base ++ ", \"size\": " ++ size ++
      ", \"width\": " ++ toString t.width ++ ", \"height\": " ++ toString t.height ++ ", \"pitch\": " ++
      toString t.pitch ++ ", \"format\": " ++ jsonStr (colorFormatDebug t.format) ++ ", \"tiling\": " ++
      jsonStr (tilingDebug t.tiling) ++ "\x7d").toList
      (ofMembers [("kind",.string kind),("base",b),("size",z),("width",int t.width),
        ("height",int t.height),("pitch",int t.pitch),("format",.string (colorFormatDebug t.format)),
        ("tiling",.string (tilingDebug t.tiling))]) True := by
  refine (object_written
    [framed "" "kind" (jsonStr_written kind) rfl (plain_lit rfl),
      framed " " "base" hbase rfl (plain_lit rfl),framed " " "size" hsize rfl (plain_lit rfl),
      framed " " "width" (nat_written t.width) rfl (plain_lit rfl),
      framed " " "height" (nat_written t.height) rfl (plain_lit rfl),
      framed " " "pitch" (nat_written t.pitch) rfl (plain_lit rfl),
      framed " " "format" (jsonStr_written (colorFormatDebug t.format)) rfl (plain_lit rfl),
      framed " " "tiling" (jsonStr_written (tilingDebug t.tiling)) rfl (plain_lit rfl)] "" ?_
    (by simp) (by simp [framed]) rfl).iff (by simp [framed])
  simp only [objectText_cons,membersText,List.map_cons,List.map_nil,String.toList_append,
    List.append_assoc,framed]
  repeat rw [String.toList_ofList]
  rfl

lemma target_written (t : TargetDesc) : Written (targetJson t).toList (targetValue t) True := by
  unfold targetJson targetValue
  cases t.kind with
  | videoout => exact target_members t "Videoout" .null .null
  | offscreen base size =>
    exact target_members t "Offscreen" (quoted_written (plain_hex base.toNat)) (nat_written size)

def decodedValue (f : BlendFields) (mask : BitVec 8) : Json :=
  ofMembers [("color_src",.string (blendFactorName f.colorSrc)),
    ("color_dst",.string (blendFactorName f.colorDst)),("color_op",.string (blendOpName f.colorComb)),
    ("alpha_src",.string (blendFactorName f.alphaSrc)),
    ("alpha_dst",.string (blendFactorName f.alphaDst)),("alpha_op",.string (blendOpName f.alphaComb)),
    ("separate_alpha",.bool f.separateAlpha),("write_rgba",.string (writeMaskStr mask))]

lemma decoded_written (f : BlendFields) (mask : BitVec 8) :
    Written ("\x7b\"color_src\": " ++ jsonStr (blendFactorName f.colorSrc) ++ ", \"color_dst\": " ++
      jsonStr (blendFactorName f.colorDst) ++ ", \"color_op\": " ++ jsonStr (blendOpName f.colorComb) ++
      ", \"alpha_src\": " ++ jsonStr (blendFactorName f.alphaSrc) ++ ", \"alpha_dst\": " ++
      jsonStr (blendFactorName f.alphaDst) ++ ", \"alpha_op\": " ++ jsonStr (blendOpName f.alphaComb) ++
      ", \"separate_alpha\": " ++ toString f.separateAlpha ++ ", \"write_rgba\": " ++
      jsonStr (writeMaskStr mask) ++ "\x7d").toList (decodedValue f mask) True := by
  refine (object_written
    [framed "" "color_src" (jsonStr_written (blendFactorName f.colorSrc)) rfl (plain_lit rfl),
      framed " " "color_dst" (jsonStr_written (blendFactorName f.colorDst)) rfl (plain_lit rfl),
      framed " " "color_op" (jsonStr_written (blendOpName f.colorComb)) rfl (plain_lit rfl),
      framed " " "alpha_src" (jsonStr_written (blendFactorName f.alphaSrc)) rfl (plain_lit rfl),
      framed " " "alpha_dst" (jsonStr_written (blendFactorName f.alphaDst)) rfl (plain_lit rfl),
      framed " " "alpha_op" (jsonStr_written (blendOpName f.alphaComb)) rfl (plain_lit rfl),
      framed " " "separate_alpha" (.bool f.separateAlpha) rfl (plain_lit rfl),
      framed " " "write_rgba" (jsonStr_written (writeMaskStr mask)) rfl (plain_lit rfl)] "" ?_
    (by simp) (by simp [framed]) rfl).iff (by simp [framed])
  simp only [objectText_cons,membersText,List.map_cons,List.map_nil,String.toList_append,
    List.append_assoc,framed]
  repeat rw [String.toList_ofList]
  rfl

def blendValue (b : BlendKey) : Json :=
  ofMembers [("enable",.bool b.enable),("control",.string (hexDword b.control)),
    ("write_mask",.string (hex b.writeMask.toNat)),("decoded",decodedValue b.fields b.writeMask)]

lemma blend_written (b : BlendKey) : Written (blendJson b).toList (blendValue b) True := by
  refine (object_written
    [framed "" "enable" (.bool b.enable) rfl (plain_lit rfl),
      framed " " "control" (quoted_written (plain_hexPadded 8 b.control.toNat)) rfl (plain_lit rfl),
      framed " " "write_mask" (quoted_written (plain_hex b.writeMask.toNat)) rfl (plain_lit rfl),
      framed " " "decoded" (decoded_written b.fields b.writeMask) rfl (plain_lit rfl)] "" ?_
    (by simp) (by simp [framed]) rfl).iff (by simp [framed])
  unfold blendJson
  simp only [objectText_cons,membersText,List.map_cons,List.map_nil,String.toList_append,
    List.append_assoc,framed,quoted,hexDword]
  repeat rw [String.toList_ofList]
  rfl

def resourcesValue (r : ResourceSignature) : Json :=
  ofMembers [("storage",optionValue slotValue r.storage),
    ("const_storage",optionValue slotValue r.constStorage),
    ("const_storage_fragment",optionValue slotValue r.constStorageFragment),
    ("textures",.array ((r.textures.toList.filterMap id).map slotValue))]

lemma resources_written (r : ResourceSignature) :
    Written (resourcesJson r).toList (resourcesValue r) True := by
  refine (object_written
    [framed "" "storage" (option_written slot_written r.storage) rfl (plain_lit rfl),
      framed " " "const_storage" (option_written slot_written r.constStorage) rfl (plain_lit rfl),
      framed " " "const_storage_fragment" (option_written slot_written r.constStorageFragment)
        rfl (plain_lit rfl),
      framed " " "textures" (commas_written slot_written (r.textures.toList.filterMap id))
        rfl (plain_lit rfl)] "" ?_
    (by simp) (by simp [framed]) rfl).iff (by simp [framed])
  unfold resourcesJson
  simp only [objectText_cons,membersText,List.map_cons,List.map_nil,String.toList_append,
    List.append_assoc,framed]
  repeat rw [String.toList_ofList]
  rfl

def depthValue (d : DepthKey) : Json :=
  ofMembers [("enable",.bool d.enable),("control",.string (hexDword d.control))]

lemma depth_written (d : DepthKey) :
    Written ("\x7b\"enable\": " ++ toString d.enable ++ ", \"control\": \"" ++ hexDword d.control ++
      "\"\x7d").toList (depthValue d) True := by
  refine (object_written
    [framed "" "enable" (.bool d.enable) rfl (plain_lit rfl),
      framed " " "control" (quoted_written (plain_hexPadded 8 d.control.toNat)) rfl (plain_lit rfl)] "" ?_
    (by simp) (by simp [framed]) rfl).iff (by simp [framed])
  simp only [objectText_cons,membersText,List.map_cons,List.map_nil,String.toList_append,
    List.append_assoc,framed,quoted,hexDword]
  repeat rw [String.toList_ofList]
  rfl

def pipelineValue (p : PipelineKey) : Json :=
  ofMembers [("vs_hash",.string (hexPadded 16 p.vsHash.toNat)),
    ("ps_hash",.string (hexPadded 16 p.psHash.toNat)),
    ("color_format",.string (colorFormatDebug p.colorFormat)),("blend",blendValue p.blend),
    ("depth",depthValue p.depth),("vertex_layout",.string (vertexLayoutDebug p.vertexLayout)),
    ("topology",.string (topologyDebug p.topology)),("resources",resourcesValue p.resources)]

lemma pipeline_written (p : PipelineKey) : Written (pipelineJson p).toList (pipelineValue p) True := by
  refine (object_written
    [framed "" "vs_hash" (quoted_written (plain_hexPadded 16 p.vsHash.toNat)) rfl (plain_lit rfl),
      framed " " "ps_hash" (quoted_written (plain_hexPadded 16 p.psHash.toNat)) rfl (plain_lit rfl),
      framed " " "color_format" (jsonStr_written (colorFormatDebug p.colorFormat)) rfl (plain_lit rfl),
      framed " " "blend" (blend_written p.blend) rfl (plain_lit rfl),
      framed " " "depth" (depth_written p.depth) rfl (plain_lit rfl),
      framed " " "vertex_layout" (jsonStr_written (vertexLayoutDebug p.vertexLayout)) rfl (plain_lit rfl),
      framed " " "topology" (jsonStr_written (topologyDebug p.topology)) rfl (plain_lit rfl),
      framed " " "resources" (resources_written p.resources) rfl (plain_lit rfl)] "" ?_
    (by simp) (by simp [framed]) rfl).iff (by simp [framed])
  unfold pipelineJson
  simp only [objectText_cons,membersText,List.map_cons,List.map_nil,String.toList_append,
    List.append_assoc,framed,quoted]
  repeat rw [String.toList_ofList]
  rfl

def viewportValue (v : ViewportRect) : Json :=
  ofMembers [("x",floatValue v.x),("y",floatValue v.y),("width",floatValue v.width),
    ("height",floatValue v.height)]

lemma viewport_written (v : ViewportRect) :
    Written (viewportJson v).toList (viewportValue v) True := by
  refine (object_written
    [framed "" "x" (float_written v.x) rfl (plain_lit rfl),
      framed " " "y" (float_written v.y) rfl (plain_lit rfl),
      framed " " "width" (float_written v.width) rfl (plain_lit rfl),
      framed " " "height" (float_written v.height) rfl (plain_lit rfl)] "" ?_
    (by simp) (by simp [framed]) rfl).iff (by simp [framed])
  unfold viewportJson
  simp only [objectText_cons,membersText,List.map_cons,List.map_nil,String.toList_append,
    List.append_assoc,framed]
  repeat rw [String.toList_ofList]
  rfl

def scissorValue (s : ScissorRect) : Json :=
  ofMembers [("x",int s.x),("y",int s.y),("width",int s.width),("height",int s.height)]

lemma scissor_written (s : ScissorRect) : Written (scissorJson s).toList (scissorValue s) True := by
  refine (object_written
    [framed "" "x" (int_written s.x) rfl (plain_lit rfl),
      framed " " "y" (int_written s.y) rfl (plain_lit rfl),
      framed " " "width" (nat_written s.width) rfl (plain_lit rfl),
      framed " " "height" (nat_written s.height) rfl (plain_lit rfl)] "" ?_
    (by simp) (by simp [framed]) rfl).iff (by simp [framed])
  unfold scissorJson
  simp only [objectText_cons,membersText,List.map_cons,List.map_nil,String.toList_append,
    List.append_assoc,framed]
  repeat rw [String.toList_ofList]
  rfl

/-- The name of a file by a key, if there is the file. -/
def pathValue (present : Bool) (path : String) : Json := if present then .string path else .null

def shaderDumpValue (d : ShaderDumpRef) : Json :=
  ofMembers [("spirv",.string ("shaders/" ++ d.key ++ ".spv")),
    ("sb",pathValue d.sb ("shaders/" ++ d.key ++ ".sb")),
    ("disasm",pathValue d.disasm ("shaders/" ++ d.key ++ ".txt"))]

lemma shaderDump_path {d : ShaderDumpRef} (present : Bool) {after : String} (hafter : Guard after.toList) :
    Written (if present then quoted ("shaders/" ++ d.key ++ after) else "null").toList
      (pathValue present ("shaders/" ++ d.key ++ after)) (present → PlainKey d.key) := by
  cases present with
  | true => exact (path_written "shaders/" d.key after rfl hafter).iff (by simp)
  | false => exact Written.null.iff (by simp)

lemma guard_spv : Guard ".spv".toList := ⟨rfl,by simp [escapes,hexish,hexDigit],'p',by simp,rfl⟩

lemma guard_sb : Guard ".sb".toList := ⟨rfl,by simp [escapes,hexish,hexDigit],'b',by simp,rfl⟩

lemma guard_txt : Guard ".txt".toList := ⟨rfl,by simp [escapes,hexish,hexDigit],'x',by simp,rfl⟩

lemma guard_png : Guard ".png".toList := ⟨rfl,by simp [escapes,hexish,hexDigit],'p',by simp,rfl⟩

lemma guard_raw : Guard ".raw".toList := ⟨rfl,by simp [escapes,hexish,hexDigit],'w',by simp,rfl⟩

lemma guard_detiled : Guard ".detiled.raw".toList :=
  ⟨rfl,by simp [escapes,hexish,hexDigit],'d',by simp,rfl⟩

lemma shaderDump_written (d : ShaderDumpRef) :
    Written (shaderDumpJson d).toList (shaderDumpValue d) (PlainKey d.key) := by
  refine (object_written
    [framed "" "spirv" (path_written "shaders/" d.key ".spv" rfl guard_spv) rfl (plain_lit rfl),
      framed " " "sb" (shaderDump_path (d := d) d.sb guard_sb) rfl (plain_lit rfl),
      framed " " "disasm" (shaderDump_path (d := d) d.disasm guard_txt) rfl (plain_lit rfl)] "" ?_
    (by simp) (by simp [framed]) rfl).iff ?_
  · unfold shaderDumpJson
    cases d.sb <;> cases d.disasm
    all_goals
      simp only [objectText_cons,membersText,List.map_cons,List.map_nil,String.toList_append,
        List.append_assoc,framed,quoted,Bool.false_eq_true,if_true,if_false]
      repeat rw [String.toList_ofList]
      rfl
  · simp only [framed,List.forall_mem_cons,List.not_mem_nil,false_imp_iff,implies_true,and_true]
    exact ⟨fun h => h.1,fun h => ⟨h,fun _ => h,fun _ => h⟩⟩

def shaderValue (s : ShaderIdent) : Json :=
  ofMembers [("kind",.string s.kind),("addr",optionValue (fun a => .string (hexWord a)) s.addr),
    ("hash",.string (hexPadded 16 s.hash.toNat)),("spirv_words",int s.spirvWords),
    ("dump",optionValue shaderDumpValue s.dump),
    ("ps_input_map",optionValue (fun m => .array (m.toList.map fun o => int o.toNat)) s.psInputMap)]

lemma psInputMap_written (m : Vector UInt8 32) :
    Written (psInputMapJson m).toList (.array (m.toList.map fun o => int o.toNat)) True :=
  (commas_written (fun o : UInt8 => nat_written o.toNat) m.toList).iff (by simp)

lemma address_written (a : BitVec 64) : Written (quoted (hexWord a)).toList (.string (hexWord a)) True :=
  quoted_written (plain_hex a.toNat)

def ShaderIdent.pathKeys (s : ShaderIdent) : List String := s.dump.toList.map ShaderDumpRef.key

lemma shader_written (s : ShaderIdent) :
    Written (shaderJson s).toList (shaderValue s) (∀ key ∈ s.pathKeys, PlainKey key) := by
  refine (object_written
    [framed "" "kind" (jsonStr_written s.kind) rfl (plain_lit rfl),
      framed " " "addr" (option_written address_written s.addr) rfl (plain_lit rfl),
      framed " " "hash" (quoted_written (plain_hexPadded 16 s.hash.toNat)) rfl (plain_lit rfl),
      framed " " "spirv_words" (nat_written s.spirvWords) rfl (plain_lit rfl),
      framed " " "dump" (option_written shaderDump_written s.dump) rfl (plain_lit rfl),
      framed " " "ps_input_map" (option_written psInputMap_written s.psInputMap)
        rfl (plain_lit rfl)] "" ?_
    (by simp) (by simp [framed]) rfl).iff (by simp [framed,ShaderIdent.pathKeys])
  unfold shaderJson
  simp only [objectText_cons,membersText,List.map_cons,List.map_nil,String.toList_append,
    List.append_assoc,framed,quoted]
  repeat rw [String.toList_ofList]
  rfl

def refusedValue (reason : String) : Json := ofMembers [("dumped",.bool false),("reason",.string reason)]

lemma refused_written {reason : String} (hreason : reason.toList.all Spells.plain) :
    Written (refusedJson reason).toList (refusedValue reason) True := by
  refine (object_written
    [framed "" "dumped" (.bool false) rfl (plain_lit rfl),
      framed " " "reason" (quoted_written hreason) rfl (plain_lit rfl)] "" ?_
    (by simp) (by simp [framed]) rfl).iff (by simp [framed])
  unfold refusedJson
  simp only [objectText_cons,membersText,List.map_cons,List.map_nil,String.toList_append,
    List.append_assoc,framed,quoted,toString_false]
  repeat rw [String.toList_ofList]
  rfl

lemma plain_append {s t : String} (hs : s.toList.all Spells.plain) (ht : t.toList.all Spells.plain) :
    (s ++ t).toList.all Spells.plain := by
  rw [String.toList_append,List.all_append,hs,ht,Bool.and_self]

lemma plain_rtDumpOff : rtDumpOff.toList.all Spells.plain := by
  unfold rtDumpOff renderTargetsEnv
  exact plain_append (plain_append (plain_lit rfl) (plain_lit rfl)) (plain_lit rfl)

lemma plain_rtDumpVideoout : rtDumpVideoout.toList.all Spells.plain := by
  unfold rtDumpVideoout
  exact plain_append (plain_lit rfl) (plain_lit rfl)

lemma plain_rtDumpSource : rtDumpSource.toList.all Spells.plain := by
  unfold rtDumpSource
  exact plain_lit rfl

lemma plain_rtDumpNote : rtDumpNote.toList.all Spells.plain := by
  unfold rtDumpNote
  exact plain_append (plain_lit rfl) (plain_lit rfl)

def rtDumpValue : RtDumpOutcome → Json
  | .disabled => refusedValue rtDumpOff
  | .videoout => refusedValue rtDumpVideoout
  | .requested key =>
      ofMembers [("dumped",.bool true),("key",.string key),
        ("png",.string ("render-targets/" ++ key ++ ".png")),("source",.string rtDumpSource),
        ("note",.string rtDumpNote)]

def RtDumpOutcome.pathKeys : RtDumpOutcome → List String
  | .requested key => [key]
  | _ => []

lemma rtDump_written (o : RtDumpOutcome) :
    Written (rtDumpJson o).toList (rtDumpValue o) (∀ key ∈ o.pathKeys, PlainKey key) := by
  cases o with
  | disabled => exact (refused_written plain_rtDumpOff).iff (by simp [RtDumpOutcome.pathKeys])
  | videoout => exact (refused_written plain_rtDumpVideoout).iff (by simp [RtDumpOutcome.pathKeys])
  | requested key =>
    refine (object_written
      [framed "" "dumped" (.bool true) rfl (plain_lit rfl),
        framed " " "key" (jsonStr_written key) rfl (plain_lit rfl),
        framed " " "png" (path_written "render-targets/" key ".png" rfl guard_png) rfl (plain_lit rfl),
        framed " " "source" (quoted_written plain_rtDumpSource) rfl (plain_lit rfl),
        framed " " "note" (quoted_written plain_rtDumpNote) rfl (plain_lit rfl)] "" ?_
      (by simp) (by simp [framed]) rfl).iff (by simp [framed,RtDumpOutcome.pathKeys])
    unfold rtDumpJson
    simp only [objectText_cons,membersText,List.map_cons,List.map_nil,String.toList_append,
      List.append_assoc,framed,quoted,toString_true]
    repeat rw [String.toList_ofList]
    rfl

def detiledValue (detiled : Except String ℕ) (detiledKey : Option String) : Json :=
  match detiled,detiledKey with
  | .ok len,some dkey =>
      ofMembers [("ok",.bool true),("bytes",int len),
        ("raw",.string ("textures/" ++ dkey ++ ".detiled.raw")),
        ("png",.string ("textures/" ++ dkey ++ ".png"))]
  | .ok len,none => ofMembers [("ok",.bool true),("bytes",int len)]
  | .error e,_ => ofMembers [("ok",.bool false),("error",.string e)]

def detiledKeys (detiled : Except String ℕ) (detiledKey : Option String) : List String :=
  match detiled with
  | .ok _ => detiledKey.toList
  | .error _ => []

lemma detiled_written (detiled : Except String ℕ) (detiledKey : Option String) :
    Written (detiledJson detiled detiledKey).toList (detiledValue detiled detiledKey)
      (∀ key ∈ detiledKeys detiled detiledKey, PlainKey key) := by
  cases detiled with
  | error e =>
    refine (object_written [framed "" "ok" (.bool false) rfl (plain_lit rfl),
        framed " " "error" (jsonStr_written e) rfl (plain_lit rfl)] "" ?_
      (by simp) (by simp [framed]) rfl).iff (by simp [framed,detiledKeys])
    unfold detiledJson
    simp only [objectText_cons,membersText,List.map_cons,List.map_nil,String.toList_append,
      List.append_assoc,framed,toString_false]
    repeat rw [String.toList_ofList]
    rfl
  | ok len =>
    cases detiledKey with
    | none =>
      refine (object_written [framed "" "ok" (.bool true) rfl (plain_lit rfl),
          framed " " "bytes" (nat_written len) rfl (plain_lit rfl)] "" ?_
        (by simp) (by simp [framed]) rfl).iff (by simp [framed,detiledKeys])
      unfold detiledJson
      simp only [objectText_cons,membersText,List.map_cons,List.map_nil,String.toList_append,
        List.append_assoc,framed,toString_true]
      repeat rw [String.toList_ofList]
      rfl
    | some dkey =>
      refine (object_written
        [framed "" "ok" (.bool true) rfl (plain_lit rfl),
          framed " " "bytes" (nat_written len) rfl (plain_lit rfl),
          framed " " "raw" (path_written "textures/" dkey ".detiled.raw" rfl guard_detiled)
            rfl (plain_lit rfl),
          framed " " "png" (path_written "textures/" dkey ".png" rfl guard_png) rfl (plain_lit rfl)] "" ?_
        (by simp) (by simp [framed]) rfl).iff (by simp [framed,detiledKeys])
      unfold detiledJson
      simp only [objectText_cons,membersText,List.map_cons,List.map_nil,String.toList_append,
        List.append_assoc,framed,quoted,toString_true]
      repeat rw [String.toList_ofList]
      rfl

lemma plain_textureDumpOff : textureDumpOff.toList.all Spells.plain := by
  unfold textureDumpOff texturesEnv
  exact plain_append (plain_append (plain_lit rfl) (plain_lit rfl)) (plain_lit rfl)

lemma plain_textureResident : textureResident.toList.all Spells.plain := by
  unfold textureResident renderTargetsEnv
  simp only [String.toList_append,List.all_append,Bool.and_eq_true]
  and_intros
  all_goals exact plain_lit rfl

lemma plain_textureTooLarge (span cap : ℕ) : (textureTooLarge span cap).toList.all Spells.plain := by
  have hspan := plain_nat span
  have hcap := plain_nat cap
  unfold textureTooLarge textureMaxBytesEnv
  simp only [String.toList_append,List.all_append,Bool.and_eq_true,hspan,hcap,and_true]
  and_intros
  all_goals exact plain_lit rfl

lemma plain_textureReadFailed (span : ℕ) : (textureReadFailed span).toList.all Spells.plain := by
  unfold textureReadFailed
  exact plain_append (plain_append (plain_lit rfl) (plain_nat span)) (plain_lit rfl)

def textureDumpValue : TextureDumpOutcome → Json
  | .disabled => refusedValue textureDumpOff
  | .renderTargetSource => refusedValue textureResident
  | .tooLarge span cap =>
      ofMembers [("dumped",.bool false),("reason",.string (textureTooLarge span cap)),
        ("byte_span",int span),("cap_bytes",int cap)]
  | .readFailed span =>
      ofMembers [("dumped",.bool false),("read_failed",.bool true),
        ("reason",.string (textureReadFailed span)),("byte_span",int span)]
  | .dumped key detiledKey span detiled =>
      ofMembers [("dumped",.bool true),("key",.string key),("byte_span",int span),
        ("raw",.string ("textures/" ++ key ++ ".raw")),("detiled",detiledValue detiled detiledKey)]

def TextureDumpOutcome.pathKeys : TextureDumpOutcome → List String
  | .dumped key detiledKey _ detiled => key :: detiledKeys detiled detiledKey
  | _ => []

lemma textureDump_written (o : TextureDumpOutcome) :
    Written (textureDumpJson o).toList (textureDumpValue o) (∀ key ∈ o.pathKeys, PlainKey key) := by
  cases o with
  | disabled => exact (refused_written plain_textureDumpOff).iff (by simp [TextureDumpOutcome.pathKeys])
  | renderTargetSource =>
    exact (refused_written plain_textureResident).iff (by simp [TextureDumpOutcome.pathKeys])
  | tooLarge span cap =>
    refine (object_written
      [framed "" "dumped" (.bool false) rfl (plain_lit rfl),
        framed " " "reason" (quoted_written (plain_textureTooLarge span cap)) rfl (plain_lit rfl),
        framed " " "byte_span" (nat_written span) rfl (plain_lit rfl),
        framed " " "cap_bytes" (nat_written cap) rfl (plain_lit rfl)] "" ?_
      (by simp) (by simp [framed]) rfl).iff (by simp [framed,TextureDumpOutcome.pathKeys])
    unfold textureDumpJson
    simp only [objectText_cons,membersText,List.map_cons,List.map_nil,String.toList_append,
      List.append_assoc,framed,quoted,toString_false]
    repeat rw [String.toList_ofList]
    rfl
  | readFailed span =>
    refine (object_written
      [framed "" "dumped" (.bool false) rfl (plain_lit rfl),
        framed " " "read_failed" (.bool true) rfl (plain_lit rfl),
        framed " " "reason" (quoted_written (plain_textureReadFailed span)) rfl (plain_lit rfl),
        framed " " "byte_span" (nat_written span) rfl (plain_lit rfl)] "" ?_
      (by simp) (by simp [framed]) rfl).iff (by simp [framed,TextureDumpOutcome.pathKeys])
    unfold textureDumpJson
    simp only [objectText_cons,membersText,List.map_cons,List.map_nil,String.toList_append,
      List.append_assoc,framed,quoted,toString_true,toString_false]
    repeat rw [String.toList_ofList]
    rfl
  | dumped key detiledKey span detiled =>
    refine (object_written
      [framed "" "dumped" (.bool true) rfl (plain_lit rfl),
        framed " " "key" (jsonStr_written key) rfl (plain_lit rfl),
        framed " " "byte_span" (nat_written span) rfl (plain_lit rfl),
        framed " " "raw" (path_written "textures/" key ".raw" rfl guard_raw) rfl (plain_lit rfl),
        framed " " "detiled" (detiled_written detiled detiledKey) rfl (plain_lit rfl)] "" ?_
      (by simp) (by simp [framed]) rfl).iff (by simp [framed,TextureDumpOutcome.pathKeys])
    unfold textureDumpJson
    simp only [objectText_cons,membersText,List.map_cons,List.map_nil,String.toList_append,
      List.append_assoc,framed,quoted,toString_true]
    repeat rw [String.toList_ofList]
    rfl

/-- An entry of a list stands on a line of its own, with blanks in front of it. -/
lemma entry_written {text : String} {t : List Char} {v : Json} {p : Prop} (before : String)
    (h : Written t v p) (htext : text.toList = before.toList ++ t)
    (hbefore : before.toList.all blank) : Written text.toList v p := by
  rw [htext]
  exact h.blanks hbefore

lemma dword_written (v : BitVec 32) : Written (quoted (hexDword v)).toList (.string (hexDword v)) True :=
  quoted_written (plain_hexPadded 8 v.toNat)

def regChangeValue (c : Change Reg Dword) : Json :=
  ofMembers [("bank",.string (bankName c.key.bank)),("index",int c.key.index.toNat),
    ("index_hex",.string (hex c.key.index.toNat)),("name",optionValue .string (regName c.key.index)),
    ("from",optionValue (fun v => .string (hexDword v)) c.before),
    ("to",optionValue (fun v => .string (hexDword v)) c.after)]

lemma regChange_written (c : Change Reg Dword) :
    Written (regChangeJson c).toList (regChangeValue c) True := by
  have h := Written.object
    [framed "" "bank" (jsonStr_written (bankName c.key.bank)) rfl (plain_lit rfl),
      framed " " "index" (nat_written c.key.index.toNat) rfl (plain_lit rfl),
      framed " " "index_hex" (quoted_written (plain_hex c.key.index.toNat)) rfl (plain_lit rfl),
      framed " " "name" (option_written jsonStr_written (regName c.key.index)) rfl (plain_lit rfl),
      framed " " "from" (option_written dword_written c.before) rfl (plain_lit rfl),
      framed " " "to" (option_written dword_written c.after) rfl (plain_lit rfl)] ""
    (by simp) (by simp [framed]) rfl
  simp only [membersValue,framed,List.map_cons,List.map_nil] at h
  refine entry_written "\n        " (h.iff (by simp)) ?_ rfl
  unfold regChangeJson
  simp only [objectText_cons,membersText,String.toList_append,
    List.append_assoc,quoted]
  repeat rw [String.toList_ofList]
  rfl

def bufferValue (b : BufferRecord) : Json :=
  ofMembers [("addr",.string (hexWord b.addr)),("size",int b.size),("layout",.string b.layout),
    ("v_sharp",vSharpValue b.desc)]

lemma buffer_written (b : BufferRecord) : Written (bufferJson b).toList (bufferValue b) True := by
  refine entry_written "\n        " ((Written.object
    [framed "" "addr" (address_written b.addr) rfl (plain_lit rfl),
      framed " " "size" (nat_written b.size) rfl (plain_lit rfl),
      framed " " "layout" (jsonStr_written b.layout) rfl (plain_lit rfl),
      framed " " "v_sharp" (vSharp_written b.desc) rfl (plain_lit rfl)] ""
    (by simp) (by simp [framed]) rfl).iff (by simp [framed])) ?_ rfl
  unfold bufferJson
  simp only [objectText_cons,membersText,List.map_cons,List.map_nil,String.toList_append,
    List.append_assoc,framed,quoted]
  repeat rw [String.toList_ofList]
  rfl

def constBufferValue (c : ConstBufferRecord) : Json :=
  ofMembers [("stage",.string c.stage),("addr",.string (hexWord c.addr)),("size",int c.size),
    ("v_sharp",vSharpValue c.desc),("dumped_bytes",int c.bytes.length),
    ("truncated",.bool (decide (c.size > c.bytes.length))),
    ("read_failed",.bool (decide (c.bytes = [] ∧ c.size > 0))),
    ("dwords",.array ((dwords c.bytes).map fun w => .string (hexDword w))),
    ("floats",.array ((dwords c.bytes).map floatValue))]

lemma constBuffer_written (c : ConstBufferRecord) :
    Written (constBufferJson c).toList (constBufferValue c) True := by
  refine entry_written "\n        " ((Written.object
    [framed "" "stage" (jsonStr_written c.stage) rfl (plain_lit rfl),
      framed " " "addr" (address_written c.addr) rfl (plain_lit rfl),
      framed " " "size" (nat_written c.size) rfl (plain_lit rfl),
      framed " " "v_sharp" (vSharp_written c.desc) rfl (plain_lit rfl),
      framed " " "dumped_bytes" (nat_written c.bytes.length) rfl (plain_lit rfl),
      framed " " "truncated" (.bool (decide (c.size > c.bytes.length))) rfl (plain_lit rfl),
      framed " " "read_failed" (.bool (decide (c.bytes = [] ∧ c.size > 0))) rfl (plain_lit rfl),
      framed " " "dwords" (commas_written dword_written (dwords c.bytes)) rfl (plain_lit rfl),
      framed " " "floats" (commas_written float_written (dwords c.bytes)) rfl (plain_lit rfl)] ""
    (by simp) (by simp [framed]) rfl).iff (by simp [framed])) ?_ rfl
  unfold constBufferJson
  simp only [objectText_cons,membersText,List.map_cons,List.map_nil,String.toList_append,
    List.append_assoc,framed,quoted,dwordsJson,floatsJson]
  repeat rw [String.toList_ofList]
  rfl

def sampledValue (s : SampledRecord) : Json :=
  ofMembers [("set",int s.set),("binding",int s.binding),("source",.string s.source),
    ("base",.string (hexWord s.base)),("width",int s.width),("height",int s.height),
    ("descriptor_honoured",.bool s.descriptorHonoured),("texels",textureDumpValue s.dump),
    ("t_sharp",optionValue tSharpValue s.texture),("s_sharp",optionValue sSharpValue s.sampler),
    ("sampler_bound",samplerBoundValue s.samplerBound)]

lemma sampled_written (s : SampledRecord) :
    Written (sampledJson s).toList (sampledValue s) (∀ key ∈ s.dump.pathKeys, PlainKey key) := by
  refine entry_written "\n        " ((Written.object
    [framed "" "set" (nat_written s.set) rfl (plain_lit rfl),
      framed " " "binding" (nat_written s.binding) rfl (plain_lit rfl),
      framed " " "source" (jsonStr_written s.source) rfl (plain_lit rfl),
      framed " " "base" (address_written s.base) rfl (plain_lit rfl),
      framed " " "width" (nat_written s.width) rfl (plain_lit rfl),
      framed " " "height" (nat_written s.height) rfl (plain_lit rfl),
      framed " " "descriptor_honoured" (.bool s.descriptorHonoured) rfl (plain_lit rfl),
      framed " " "texels" (textureDump_written s.dump) rfl (plain_lit rfl),
      framed " " "t_sharp" (option_written tSharp_written s.texture) rfl (plain_lit rfl),
      framed " " "s_sharp" (option_written sSharp_written s.sampler) rfl (plain_lit rfl),
      framed " " "sampler_bound" (samplerBound_written s.samplerBound) rfl (plain_lit rfl)] ""
    (by simp) (by simp [framed]) rfl).iff (by simp [framed])) ?_ rfl
  unfold sampledJson
  simp only [objectText_cons,membersText,List.map_cons,List.map_nil,String.toList_append,
    List.append_assoc,framed,quoted]
  repeat rw [String.toList_ofList]
  rfl

def fillColorValue (v : Vector F32 4) : Json := .array (v.toList.map floatValue)

lemma fillColor_written (v : Vector F32 4) :
    Written (fillColorJson v).toList (fillColorValue v) True := by
  unfold fillColorJson
  exact (commas_written float_written v.toList).iff (by simp)

def drawValue (d : DrawRecord) : Json :=
  ofMembers [("ordinal",int d.ordinal),("kind",.string d.kind),("count",int d.count),
    ("target",targetValue d.target),("target_dump",rtDumpValue d.targetDump),
    ("pipeline",pipelineValue d.pipeline),("viewport",viewportValue d.viewport),
    ("scissor",scissorValue d.scissor),("vs",shaderValue d.vs),("ps",shaderValue d.ps),
    ("fill_color_heuristic",optionValue fillColorValue d.fillColor),
    ("register_delta",.array (d.regDelta.map regChangeValue)),
    ("buffers",.array (d.buffers.map bufferValue)),
    ("const_buffers",.array (d.constBuffers.map constBufferValue)),
    ("sampled",.array (d.sampled.map sampledValue))]

/-- The keys that stand in the names of files of a draw. -/
def DrawRecord.pathKeys (d : DrawRecord) : List String :=
  d.targetDump.pathKeys ++ d.vs.pathKeys ++ d.ps.pathKeys ++ d.sampled.flatMap fun s => s.dump.pathKeys

lemma draw_plain (d : DrawRecord) :
    (∀ key ∈ d.pathKeys, PlainKey key) ↔
      (∀ key ∈ d.targetDump.pathKeys, PlainKey key) ∧ (∀ key ∈ d.vs.pathKeys, PlainKey key) ∧
        (∀ key ∈ d.ps.pathKeys, PlainKey key) ∧
        ∀ s ∈ d.sampled, ∀ key ∈ s.dump.pathKeys, PlainKey key := by
  simp only [DrawRecord.pathKeys,List.forall_mem_append,and_assoc,List.forall_mem_flatMap]

set_option maxRecDepth 1000 in
lemma draw_written (d : DrawRecord) :
    Written (drawJson d).toList (drawValue d) (∀ key ∈ d.pathKeys, PlainKey key) := by
  refine entry_written "    " ((Written.object
    [framed "\n      " "ordinal" (nat_written d.ordinal) rfl (plain_lit rfl),
      framed "\n      " "kind" (jsonStr_written d.kind) rfl (plain_lit rfl),
      framed "\n      " "count" (nat_written d.count) rfl (plain_lit rfl),
      framed "\n      " "target" (target_written d.target) rfl (plain_lit rfl),
      framed "\n      " "target_dump" (rtDump_written d.targetDump) rfl (plain_lit rfl),
      framed "\n      " "pipeline" (pipeline_written d.pipeline) rfl (plain_lit rfl),
      framed "\n      " "viewport" (viewport_written d.viewport) rfl (plain_lit rfl),
      framed "\n      " "scissor" (scissor_written d.scissor) rfl (plain_lit rfl),
      framed "\n      " "vs" (shader_written d.vs) rfl (plain_lit rfl),
      framed "\n      " "ps" (shader_written d.ps) rfl (plain_lit rfl),
      framed "\n      " "fill_color_heuristic" (option_written fillColor_written d.fillColor)
        rfl (plain_lit rfl),
      framed "\n      " "register_delta" (entries_written regChange_written d.regDelta)
        rfl (plain_lit rfl),
      framed "\n      " "buffers" (entries_written buffer_written d.buffers) rfl (plain_lit rfl),
      framed "\n      " "const_buffers" (entries_written constBuffer_written d.constBuffers)
        rfl (plain_lit rfl),
      framed "\n      " "sampled" (entries_written sampled_written d.sampled)
        rfl (plain_lit rfl)] "\n    "
    (by simp) (by simp [framed]) rfl).iff (by simp [framed,draw_plain])) ?_ rfl
  unfold drawJson
  simp only [objectText_cons,membersText,List.map_cons,List.map_nil,String.toList_append,
    List.append_assoc,framed]
  repeat rw [String.toList_ofList]
  rfl

/-- The members of a deferred draw, and those of the shader that deferred it. -/
def deferDetailMembers : Option DeferDetail → List (String × Json)
  | some det =>
      [("stage",.string det.stage),("shader_addr",.string (hexWord det.shaderAddr)),
        ("shader_hash",.string (.ofList (padded 16 det.shaderHash.toNat))),
        ("instruction",optionValue .string det.instruction)]
  | none => []

def deferredValue (d : DeferredRecord) : Json :=
  ofMembers ([("ordinal",int d.ordinal),("kind",.string d.kind),("count",int d.count),
    ("reason",.string d.reason),("after_submitted_draw",int d.afterDraw)] ++ deferDetailMembers d.detail)

lemma deferred_written (d : DeferredRecord) : Written (deferredJson d).toList (deferredValue d) True := by
  unfold deferredJson deferredValue
  cases d.detail with
  | none =>
    refine entry_written "    " ((Written.object
      [framed "" "ordinal" (nat_written d.ordinal) rfl (plain_lit rfl),
        framed " " "kind" (jsonStr_written d.kind) rfl (plain_lit rfl),
        framed " " "count" (nat_written d.count) rfl (plain_lit rfl),
        framed " " "reason" (jsonStr_written d.reason) rfl (plain_lit rfl),
        framed " " "after_submitted_draw" (nat_written d.afterDraw) rfl (plain_lit rfl)] ""
      (by simp) (by simp [framed]) rfl).iff (by simp [framed])) ?_ rfl
    unfold deferDetailJson
    simp only [objectText_cons,membersText,List.map_cons,List.map_nil,String.toList_append,
      List.append_assoc,framed]
    repeat rw [String.toList_ofList]
    rfl
  | some det =>
    refine entry_written "    " ((Written.object
      [framed "" "ordinal" (nat_written d.ordinal) rfl (plain_lit rfl),
        framed " " "kind" (jsonStr_written d.kind) rfl (plain_lit rfl),
        framed " " "count" (nat_written d.count) rfl (plain_lit rfl),
        framed " " "reason" (jsonStr_written d.reason) rfl (plain_lit rfl),
        framed " " "after_submitted_draw" (nat_written d.afterDraw) rfl (plain_lit rfl),
        framed " " "stage" (jsonStr_written det.stage) rfl (plain_lit rfl),
        framed " " "shader_addr" (address_written det.shaderAddr) rfl (plain_lit rfl),
        framed " " "shader_hash" (quoted_written (s := .ofList (padded 16 det.shaderHash.toNat))
          (by simpa using plain_padded 16 det.shaderHash.toNat)) rfl (plain_lit rfl),
        framed " " "instruction" (option_written jsonStr_written det.instruction) rfl (plain_lit rfl)] ""
      (by simp) (by simp [framed]) rfl).iff (by simp [framed])) ?_ rfl
    unfold deferDetailJson
    simp only [objectText_cons,membersText,List.map_cons,List.map_nil,String.toList_append,
      List.append_assoc,framed,quoted]
    repeat rw [String.toList_ofList]
    rfl

def documentValue (frame : ℕ) (draws : List DrawRecord) (deferred : List DeferredRecord) : Json :=
  ofMembers [("frame",int frame),("draw_count",int draws.length),("deferred_count",int deferred.length),
    ("draws",.array (draws.map drawValue)),("deferred_draws",.array (deferred.map deferredValue))]

end Objects

section Document

variable (frame : ℕ) (draws : List DrawRecord) (deferred : List DeferredRecord)

/-- The file is an object and the end of its last line. -/
lemma document_written : ∃ t, Written t (documentValue frame draws deferred)
      (∀ d ∈ draws, ∀ key ∈ d.pathKeys, PlainKey key) ∧
    (drawsJson frame draws deferred).toList = t ++ ['\n'] := by
  refine ⟨_,(Written.object
    [framed "\n  " "frame" (nat_written frame) rfl (plain_lit rfl),
      framed "\n  " "draw_count" (nat_written draws.length) rfl (plain_lit rfl),
      framed "\n  " "deferred_count" (nat_written deferred.length) rfl (plain_lit rfl),
      framed "\n  " "draws" (lines_written draw_written draws) rfl (plain_lit rfl),
      framed "\n  " "deferred_draws" (lines_written deferred_written deferred) rfl (plain_lit rfl)] "\n"
    (by simp) (by simp [framed]) rfl).iff (by simp [framed]),?_⟩
  unfold drawsJson
  simp only [objectText_cons,membersText,List.map_cons,List.map_nil,String.toList_append,
    List.append_assoc,List.cons_append,framed]
  repeat rw [String.toList_ofList]
  rfl

theorem parse_drawsJson :
    parse (drawsJson frame draws deferred) = .ok (documentValue frame draws deferred) ↔
      ∀ d ∈ draws, ∀ key ∈ d.pathKeys, PlainKey key := by
  obtain ⟨t,ht,htext⟩ := document_written frame draws deferred
  constructor
  · intro hparse
    -- The end of the line has no room, so the object has it all, which it has not where a key is not plain.
    by_contra hplain
    obtain ⟨n,hn,hweight⟩ := weight_parse hparse
    rw [htext] at hn
    obtain ⟨k,hk,-,hlt⟩ := ht.keeps _ n hn
    have hzero : room .outside ['\n'] = some 0 := by simp [room,mark,blank]
    have := hlt hplain
    rw [hzero,Option.some.injEq] at hk
    omega
  · exact fun hplain => parse_text (ht.reads hplain) (by simp [blank]) htext

lemma asI64_int {i : ℤ} (hi : i.natAbs < 2^53) : (int i).asI64 = some i := by
  have hfloor : ⌊(i.natAbs : ℚ)⌋ = i.natAbs := Int.floor_natCast i.natAbs
  simp only [int,ofInt_value hi,asI64,toI64,hfloor,decide_eq_true_eq,Option.some.injEq]
  split_ifs <;> omega

theorem drawsJson_reads_back :
    (Json.parse (drawsJson frame draws deferred) = .ok (documentValue frame draws deferred) ↔
      ∀ d ∈ draws, ∀ key ∈ d.pathKeys, PlainKey key) ∧
      ∀ i : ℤ, i.natAbs < 2^53 → (int i).asI64 = some i :=
  ⟨parse_drawsJson frame draws deferred,fun _ => asI64_int⟩

end Document

/-- A draw into a target of one pixel. -/
def pixelDraw (targetDump : RtDumpOutcome) : DrawRecord where
  ordinal := 0
  kind := "auto"
  count := 3
  target := ⟨1,1,1,.b8g8r8a8Unorm,.linear,.offscreen 0x1000 4⟩
  pipeline :=
    { vsHash := 1, psHash := 2, vertexLayout := none, resources := ⟨none,none,none,.replicate 8 none⟩
      colorFormat := .b8g8r8a8Unorm, blend := ⟨false,0,0xf⟩, depth := ⟨false,0⟩
      topology := .triangleList }
  viewport := ⟨0,0,0,0⟩
  scissor := ⟨0,0,1,1⟩
  vs := ⟨"embedded",none,1,4,none,none⟩
  ps := ⟨"embedded",none,2,4,none,none⟩
  buffers := []
  constBuffers := []
  targetDump
  sampled := []
  regDelta := []
  fillColor := none

/-- A quote in the key of a render target ends the name of its file. -/
theorem quoted_key_not_read :
    Json.parse (drawsJson 0 [pixelDraw (.requested "a\"b")] []) ≠
      .ok (documentValue 0 [pixelDraw (.requested "a\"b")] []) := by
  rw [ne_eq,parse_drawsJson]
  intro hplain
  have hkey := hplain (pixelDraw (.requested "a\"b")) (by simp) "a\"b"
    (by simp [DrawRecord.pathKeys,pixelDraw,RtDumpOutcome.pathKeys])
  exact hkey.1 (by simp)

end Unemups4.Gnm.Records

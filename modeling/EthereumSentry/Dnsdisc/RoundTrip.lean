import EthereumSentry.Dnsdisc.Reached

/-!
# Records as texts

The text of a record is parsed back to the record (`RoundTrips`): that of a branch always, and that of a root when its
signature has the same text in Base64 and in unpadded Base64url (`fromStr_display`). A root is printed with the one and
read with the other. Whatever its signature reads as, the part that `verify` checks is the text before it
(`fromStr_signed`).
-/

set_option autoImplicit false

namespace EthereumSentry

namespace Dnsdisc

/-! ## Splitting -/

variable {p : Char → Bool}

/-- A text that neither begins nor ends with a whitespace is not trimmed. -/
theorem trim_eq_self {s : Text} (hhead : ∀ c ∈ s.head?, isWhitespace c = false)
    (hlast : ∀ c ∈ s.getLast?, isWhitespace c = false) : trim s = s := by
  have hdrop : ∀ {s : Text}, (∀ c ∈ s.head?, isWhitespace c = false) → s.dropWhile isWhitespace = s := fun {s} h => by
    cases s with
    | nil => rfl
    | cons c s => rw [List.dropWhile_cons_of_neg (by rw [h c rfl]; exact Bool.false_ne_true)]
  rw [trim, hdrop hhead, hdrop (by rwa [List.head?_reverse]), List.reverse_reverse]

theorem trim_of_free {s : Text} (h : Free isWhitespace s) : trim s = s :=
  trim_eq_self (fun c hc => h c (List.mem_of_head? hc)) fun c hc => h c (List.mem_of_getLast? hc)

theorem trim_cons_space (s : Text) : trim (' ' :: s) = trim s := rfl

theorem free_append {s t : Text} (hs : Free p s) (ht : Free p t) : Free p (s ++ t) := fun c hc =>
  (List.mem_append.1 hc).elim (hs c) (ht c)

theorem stripPrefix_append (pre s : Text) : stripPrefix pre (pre ++ s) = some s := by
  rw [stripPrefix, if_pos (List.isPrefixOf_iff_prefix.2 (List.prefix_append _ _)), List.drop_left]

/-! ## Entries -/

theorem Base32Hash.parse_text (h : Base32Hash) : Base32Hash.parse h.text = some h := dif_pos h.fits

theorem isDigit_of_mem {n : Nat} {c : Char} (hc : c ∈ Nat.toDigits 10 n) : c.isDigit = true :=
  Nat.isDigit_of_mem_toDigits (by decide) (by decide) hc

/-- A `usize` is printed and parsed. -/
theorem parseUsize_toDigits {n : Nat} (h : n < 2 ^ 64) : parseUsize (Nat.toDigits 10 n) = some n := by
  have hall : (Nat.toDigits 10 n).all Char.isDigit = true := List.all_eq_true.2 fun c hc => isDigit_of_mem hc
  have hvalue : (Nat.toDigits 10 n).foldl (fun n c => 10 * n + (c.toNat - '0'.toNat)) 0 = n := by
    rw [← Nat.ofDigitChars_eq_foldl, Nat.ofDigitChars_ten_toDigits]
  unfold parseUsize
  split
  · -- a sign is no digit
    rename_i rest hplus
    rw [hplus] at hall
    cases hall
  · rw [if_pos ⟨Nat.toDigits_ne_nil, hall⟩, hvalue]
    exact if_pos h

theorem free_toDigits (n : Nat) : Free isWhitespace (Nat.toDigits 10 n) := fun c hc => by
  obtain ⟨hle, hge⟩ := Char.isDigit_iff_toNat.1 (isDigit_of_mem hc)
  have hzero : '0'.toNat = 48 := rfl
  have hnine : '9'.toNat = 57 := rfl
  simp only [isWhitespace, Bool.or_eq_false_iff, Bool.and_eq_false_iff, decide_eq_false_iff_not]
  omega

theorem RootEntries.read_e (r : RootEntries) (h : Base32Hash) :
    r.read ("e=".toList ++ h.text) = .ok { r with e := some h } := by
  rw [RootEntries.read, stripPrefix_append]
  simp only [Base32Hash.parse_text]

theorem RootEntries.read_l (r : RootEntries) (h : Base32Hash) :
    r.read ("l=".toList ++ h.text) = .ok { r with l := some h } := by
  have he : stripPrefix "e=".toList ("l=".toList ++ h.text) = none := rfl
  rw [RootEntries.read, he]
  simp only [stripPrefix_append, Base32Hash.parse_text]

theorem RootEntries.read_seq (r : RootEntries) {n : Nat} (h : n < 2 ^ 64) :
    r.read ("seq=".toList ++ Nat.toDigits 10 n) = .ok { r with seq := some n } := by
  have he : stripPrefix "e=".toList ("seq=".toList ++ Nat.toDigits 10 n) = none := rfl
  have hl : stripPrefix "l=".toList ("seq=".toList ++ Nat.toDigits 10 n) = none := rfl
  rw [RootEntries.read, he]
  simp only [hl, stripPrefix_append, parseUsize_toDigits h]

theorem RootEntries.read_sig (r : RootEntries) (t : Text) : r.read ("sig=".toList ++ t) =
    match BaseN.decode 6 BaseN.base64url t with
    | some v => .ok { r with sig := some v }
    | none => .error .invalidSignature := by
  have he : stripPrefix "e=".toList ("sig=".toList ++ t) = none := rfl
  have hl : stripPrefix "l=".toList ("sig=".toList ++ t) = none := rfl
  have hseq : stripPrefix "seq=".toList ("sig=".toList ++ t) = none := rfl
  rw [RootEntries.read, he]
  cases hv : BaseN.decode 6 BaseN.base64url t <;> simp only [hl, hseq, stripPrefix_append, hv]

/-! ## Records -/

variable {k : EnrCrates}

/-- A root that can be printed: its hashes have no whitespace in them, and its sequence is a `usize`. -/
structure UnsignedRoot.Printable (base : UnsignedRoot) : Prop where
  enrRoot : Free isWhitespace base.enrRoot.text
  linkRoot : Free isWhitespace base.linkRoot.text
  sequence : base.sequence < 2 ^ 64

/-- **A root and the text of its signature are parsed** to the root and the bytes that the text stands for. -/
theorem fromStr_root {base : UnsignedRoot} (h : base.Printable) {t : Text} (ht : Free isWhitespace t) :
    DnsRecord.fromStr k (base.display ++ " sig=".toList ++ t) =
      match BaseN.decode 6 BaseN.base64url t with
      | some signature => .ok (.root ⟨base, signature⟩)
      | none => .error .invalidSignature := by
  let entries : List Text := ["e=".toList ++ base.enrRoot.text, "l=".toList ++ base.linkRoot.text,
    "seq=".toList ++ Nat.toDigits 10 base.sequence, "sig=".toList ++ t]
  have htext : base.display ++ " sig=".toList ++ t = rootPrefix ++ (' ' :: [' '].intercalate entries) := by
    simp [entries, UnsignedRoot.display, List.intercalate, List.intersperse]
  have hfree : ∀ s ∈ entries, Free isWhitespace s := by
    simp only [entries, List.forall_mem_cons, List.not_mem_nil, false_imp_iff, implies_true, and_true]
    exact ⟨free_append (by decide) h.enrRoot, free_append (by decide) h.linkRoot,
      free_append (by decide) (free_toDigits _), free_append (by decide) ht⟩
  have htrim : trim (' ' :: [' '].intercalate entries) = [' '].intercalate entries := by
    refine (trim_cons_space _).trans (trim_eq_self (fun c hc => ?_) fun c hc => ?_)
    · cases hc
      rfl
    · have hlast : [' '].intercalate entries =
          ([' '].intercalate (entries.take 3) ++ [' ']) ++ ("sig=".toList ++ t) := by
        simp [entries, List.intercalate, List.intersperse]
      rw [hlast, List.getLast?_append_of_ne_nil _ (by simp)] at hc
      exact hfree _ (List.mem_of_getElem? (i := 3) rfl) c (List.mem_of_getLast? hc)
  have hsplit : splitWhitespace ([' '].intercalate entries) = entries := by
    rw [splitWhitespace, split_intercalate (by decide) hfree]
    simp [entries]
  rw [htext, DnsRecord.fromStr, stripPrefix_append]
  simp only [DnsRecord.parseRoot, htrim, hsplit, entries, List.foldlM_cons, List.foldlM_nil, RootEntries.read_e,
    RootEntries.read_l, RootEntries.read_seq _ h.sequence, RootEntries.read_sig]
  cases BaseN.decode 6 BaseN.base64url t <;> rfl

/-- The text of a record is parsed to the record. -/
def RoundTrips (print : EnrText k) (record : DnsRecord k) : Prop :=
  DnsRecord.fromStr k (record.display print) = .ok record

theorem free_encode (data : Bytes) : Free isWhitespace (BaseN.pad64 (BaseN.encode 6 BaseN.base64 data)) := by
  have halphabet : Free isWhitespace BaseN.base64 := by decide +kernel
  refine free_append (fun c hc => halphabet c (BaseN.mem_encode (by decide) (by decide) hc)) fun c hc => ?_
  rw [List.eq_of_mem_replicate hc]
  decide

theorem roundTrips_root (print : EnrText k) {r : RootRecord} (h : r.base.Printable) :
    RoundTrips print (.root r) ↔ BaseN.UrlSafe r.signature := by
  rw [RoundTrips, DnsRecord.display, RootRecord.display, fromStr_root h (free_encode _), BaseN.decode_pad64]
  by_cases hsafe : BaseN.UrlSafe r.signature
  · rw [if_pos hsafe]
    exact iff_of_true rfl hsafe
  · rw [if_neg hsafe]
    exact iff_of_false (by rintro ⟨⟩) hsafe

/-- A child that can be printed. -/
structure Base32Hash.Printable (h : Base32Hash) : Prop where
  ne_nil : h.text ≠ []
  free : Free isWhitespace h.text
  no_comma : Free (· = ',') h.text

theorem free_intercalate {c : Char} (hc : p c = false) : ∀ {parts : List Text}, (∀ s ∈ parts, Free p s) →
    Free p ([c].intercalate parts)
  | [], _ => fun _ h => nomatch h
  | [part], h => by
    rw [List.intercalate_singleton]
    exact h part (.head _)
  | part :: next :: parts, h => by
    obtain ⟨hpart, hparts⟩ := List.forall_mem_cons.1 h
    rw [List.intercalate_cons_cons]
    exact free_append (free_append hpart fun d hd => by rw [List.mem_singleton.1 hd, hc]) (free_intercalate hc hparts)

/-- **A branch is printed and parsed**, in whatever order its children are printed. -/
theorem roundTrips_branch (print : EnrText k) {children : List Base32Hash} (hnodup : children.Nodup)
    (h : ∀ c ∈ children, c.Printable) : RoundTrips print (.branch children) := by
  have hroot : stripPrefix rootPrefix (branchPrefix ++ [','].intercalate (children.map Base32Hash.text)) = none := rfl
  have hlink : stripPrefix linkPrefix (branchPrefix ++ [','].intercalate (children.map Base32Hash.text)) = none := rfl
  have htrim : trim ([','].intercalate (children.map Base32Hash.text)) =
      [','].intercalate (children.map Base32Hash.text) :=
    trim_of_free (free_intercalate (by decide) (List.forall_mem_map.2 fun c hc => (h c hc).free))
  have hsplit : (split (· = ',') ([','].intercalate (children.map Base32Hash.text))).filter (· ≠ []) =
      children.map Base32Hash.text := by
    cases children with
    | nil => rfl
    | cons c children =>
      rw [List.map_cons, split_intercalate (by decide), ← List.map_cons]
      · exact List.filter_eq_self.2 (List.forall_mem_map.2 fun c hc => by simpa using (h c hc).ne_nil)
      · rw [← List.map_cons]
        exact List.forall_mem_map.2 fun c hc => (h c hc).no_comma
  have hparse : (children.map Base32Hash.text).mapM Base32Hash.parse = some children := by
    rw [List.mapM_map, List.mapM_eq_some_map fun c _ => c.parse_text, List.map_id']
  rw [RoundTrips, DnsRecord.display, DnsRecord.fromStr, hroot]
  simp only [hlink, stripPrefix_append, DnsRecord.parseBranch, htrim, hsplit, hparse, hnodup.dedup]

/-- **Records as texts.** A root that can be printed is parsed back from its text exactly when its signature is of whole
groups of three bytes, with no group of six bits that the two alphabets write differently. A branch is parsed back from
its text. A root that is parsed from a root and some signature text prints, and `verify` checks, the text before it. -/
theorem fromStr_display (print : EnrText k) :
    (∀ r : RootRecord, r.base.Printable → (RoundTrips print (.root r) ↔ BaseN.UrlSafe r.signature)) ∧
    (∀ children : List Base32Hash, children.Nodup → (∀ h ∈ children, h.Printable) →
      RoundTrips print (.branch children)) ∧
    ∀ (base : UnsignedRoot) (t : Text) (record : DnsRecord k), base.Printable → Free isWhitespace t →
      DnsRecord.fromStr k (base.display ++ " sig=".toList ++ t) = .ok record →
      ∃ r : RootRecord, record = .root r ∧ r.base.display = base.display ∧
        ∀ pk, r.verify k pk = k.verifyV4 pk base.display.utf8 (r.signature.take 64) := by
  refine ⟨fun r h => roundTrips_root print h, fun children => roundTrips_branch print, fun base t record h ht hr => ?_⟩
  rw [fromStr_root h ht] at hr
  cases hd : BaseN.decode 6 BaseN.base64url t with
  | none =>
    rw [hd] at hr
    cases hr
  | some signature =>
    rw [hd] at hr
    cases hr
    exact ⟨_, rfl, rfl, fun _ => rfl⟩

/-! ## The example -/

def exampleText : EnrText exampleCrates := ⟨id, id⟩

def exampleBase : UnsignedRoot where
  enrRoot := ⟨"INDMVBZEEQ4ESVYAKGIYU74EAA".toList, by decide⟩
  linkRoot := ⟨"C7HRFPF3BLGF3YR4DY5KX3SMBE".toList, by decide⟩
  sequence := 3

theorem exampleBase_printable : exampleBase.Printable := ⟨by decide, by decide, by decide⟩

/-- A root with the first bytes of the example's signature, and a branch of its subtrees. -/
theorem fromStr_display_example : RoundTrips exampleText (.root ⟨exampleBase, [86, 93, 192]⟩) ∧
    RoundTrips exampleText (.branch [exampleBase.enrRoot, exampleBase.linkRoot]) ∧
    ∃ r : RootRecord, (.root ⟨exampleBase, [86, 93, 192]⟩ : DnsRecord exampleCrates) = .root r ∧
      r.base.display = exampleBase.display ∧ ∀ pk, r.verify exampleCrates pk =
        exampleCrates.verifyV4 pk exampleBase.display.utf8 (r.signature.take 64) := by
  obtain ⟨hroot, hbranch, hsigned⟩ := fromStr_display exampleText
  have hparse : DnsRecord.fromStr exampleCrates (exampleBase.display ++ " sig=".toList ++ "Vl3A".toList) =
      .ok (.root ⟨exampleBase, [86, 93, 192]⟩) := by
    have hdecode : BaseN.decode 6 BaseN.base64url "Vl3A".toList = some [86, 93, 192] := by decide +kernel
    rw [fromStr_root exampleBase_printable (by decide), hdecode]
  refine ⟨(hroot _ exampleBase_printable).2 (by decide +kernel), hbranch _ (by decide) fun h hh => ?_,
    hsigned exampleBase "Vl3A".toList _ exampleBase_printable (by decide) hparse⟩
  simp only [List.mem_cons, List.not_mem_nil, or_false] at hh
  rcases hh with rfl | rfl
  all_goals exact ⟨by decide, by decide, by decide⟩

/-- The root of the example as it is published. -/
def exampleRecord : RootRecord := ⟨exampleBase, (BaseN.decode 6 BaseN.base64url exampleSignature).getD []⟩

theorem exampleRecord_parses : DnsRecord.fromStr exampleCrates (exampleRoot ++ " sig=".toList ++ exampleSignature) =
    .ok (.root exampleRecord) := by
  have htext : exampleRoot = exampleBase.display := by decide +kernel
  have hdecode : (BaseN.decode 6 BaseN.base64url exampleSignature).isSome = true := by decide +kernel
  obtain ⟨signature, hsignature⟩ := Option.isSome_iff_exists.1 hdecode
  rw [htext, fromStr_root exampleBase_printable (by decide +kernel), exampleRecord, hsignature]
  rfl

/-- **A root that is not parsed back.** The root of the example has a signature of 65 bytes. -/
theorem exampleRecord_lost : DnsRecord.fromStr exampleCrates (exampleRoot ++ " sig=".toList ++ exampleSignature) =
    .ok (.root exampleRecord) ∧ exampleRecord.base.Printable ∧ ¬RoundTrips exampleText (.root exampleRecord) := by
  refine ⟨exampleRecord_parses, exampleBase_printable, ?_⟩
  rw [roundTrips_root _ exampleBase_printable]
  decide +kernel

end Dnsdisc

end EthereumSentry

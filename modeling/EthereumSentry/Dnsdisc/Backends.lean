import Mathlib.Data.List.AList
import EthereumSentry.Dnsdisc.Resolve

/-!
# The two backends

`src/dnsdisc/src/backend`: the records of a zone are looked up in a map (`memory.rs`) or asked for over DNS
(`trust_dns.rs`). A TXT record holds its text in character-strings of at most 255 bytes, and the latter backend returns
the first of them. So the two agree exactly on the texts that are published in one piece (`backends_agree_iff`), which
no text of more than 255 bytes is.
-/

set_option autoImplicit false

namespace EthereumSentry

namespace Dnsdisc

/-! ## The backends -/

/-- `HashMap<String, String>`: the text at a name. -/
abbrev Zone : Type := AList fun _ : Text => Text

/-- `Backend for HashMap`. -/
def Zone.getRecord (zone : Zone) : Backend := fun fqdn => .ok (zone.lookup fqdn)

/-- Why a lookup over DNS fails. -/
inductive ResolveErrorKind where
  | noRecordsFound
  | other (msg : Text)

/-- `AsyncResolver`. -/
structure AsyncResolver where
  /-- `txt_lookup`: the TXT records of a name, each with its character-strings. -/
  txtLookup : Text → Except ResolveErrorKind (List (List Bytes))

/-- Why `get_record` fails. -/
inductive GetRecordError where
  | resolve (e : ResolveErrorKind)
  /-- The bytes are not those of a text. -/
  | fromUtf8 (bytes : Bytes)

/-- The name with the dot of the root after it. -/
def absolute (fqdn : Text) : Text := fqdn ++ ['.']

/-- `Backend for AsyncResolver`, with the text of an error. -/
def AsyncResolver.getRecord (display : GetRecordError → Text) (r : AsyncResolver) : Backend := fun fqdn =>
  match r.txtLookup (absolute fqdn) with
  | .error .noRecordsFound => .ok none
  | .error e => .error (display (.resolve e))
  | .ok v => match v.head? with
    | none => .ok none
    | some txt => match txt.head? with
      | none => .ok none
      | some txtEntry => match Text.ofUtf8 txtEntry with
        | some text => .ok (some text)
        | none => .error (display (.fromUtf8 txtEntry))

/-! ## A zone that is published -/

/-- Character-strings that hold a text: one or more, of at most 255 bytes each. -/
structure CharacterStrings (text : Text) (strings : List Bytes) : Prop where
  ne_nil : strings ≠ []
  flatten : strings.flatten = text.utf8
  short : ∀ s ∈ strings, s.length ≤ 255

/-- A resolver that answers from a zone: one TXT record for every text, and none for the other names. -/
structure AsyncResolver.Serves (r : AsyncResolver) (zone : Zone) : Prop where
  missing : ∀ name, zone.lookup name = none → r.txtLookup (absolute name) = .error .noRecordsFound
  published : ∀ name text, zone.lookup name = some text →
    ∃ strings, CharacterStrings text strings ∧ r.txtLookup (absolute name) = .ok [strings]

/-- The texts of a zone are published in one piece: nothing is in the character-strings after the first. -/
def AsyncResolver.OnePiece (r : AsyncResolver) (zone : Zone) : Prop :=
  ∀ name strings, name ∈ zone → r.txtLookup (absolute name) = .ok [strings] → strings.tail.flatten = []

variable {display : GetRecordError → Text} {r : AsyncResolver} {zone : Zone}

/-- **The backends agree on a name** where the first character-string is the text, and only there. -/
theorem AsyncResolver.getRecord_eq_iff {name text : Text} {strings : List Bytes} (h : CharacterStrings text strings)
    (hlookup : r.txtLookup (absolute name) = .ok [strings]) :
    r.getRecord display name = .ok (some text) ↔ strings.tail.flatten = [] := by
  obtain ⟨txtEntry, rest, rfl⟩ := List.exists_cons_of_ne_nil h.ne_nil
  have hflatten : txtEntry ++ rest.flatten = text.utf8 := h.flatten
  have hget : r.getRecord display name = match Text.ofUtf8 txtEntry with
      | some text => .ok (some text)
      | none => .error (display (.fromUtf8 txtEntry)) := by
    rw [getRecord, hlookup]
    rfl
  rw [hget, List.tail_cons]
  constructor
  · intro hok
    cases hutf8 : Text.ofUtf8 txtEntry with
    | none =>
      rw [hutf8] at hok
      cases hok
    | some t =>
      rw [hutf8] at hok
      cases hok
      rw [← Text.utf8_of_ofUtf8 hutf8] at hflatten
      exact List.append_right_eq_self.1 hflatten
  · intro hrest
    rw [hrest, List.append_nil] at hflatten
    rw [hflatten, Text.ofUtf8_utf8]

/-- A text of more than 255 bytes has more than one piece. -/
theorem CharacterStrings.tail_ne_nil {text : Text} {strings : List Bytes} (h : CharacterStrings text strings)
    (hlong : 255 < text.utf8.length) : strings.tail.flatten ≠ [] := by
  obtain ⟨txtEntry, rest, rfl⟩ := List.exists_cons_of_ne_nil h.ne_nil
  have hshort := h.short txtEntry (.head _)
  intro hrest
  have hflatten : txtEntry ++ rest.flatten = text.utf8 := h.flatten
  rw [List.tail_cons] at hrest
  rw [← hflatten, hrest, List.append_nil] at hlong
  omega

/-- Names that are not in the zone have no record in either. -/
theorem AsyncResolver.Serves.getRecord_missing (hr : r.Serves zone) {name : Text} (h : zone.lookup name = none) :
    r.getRecord display name = zone.getRecord name := by
  rw [getRecord, hr.missing name h, Zone.getRecord, h]

/-- **The backends agree exactly on the zones that are published in one piece.** For every zone and every resolver that
answers from it, they return the same for every name exactly when nothing is in the character-strings after the first;
for a text of more than 255 bytes they never do. -/
theorem backends_agree_iff (display : GetRecordError → Text) (hr : r.Serves zone) :
    ((∀ name, r.getRecord display name = zone.getRecord name) ↔ r.OnePiece zone) ∧
      ∀ name text, zone.lookup name = some text → 255 < text.utf8.length →
        r.getRecord display name ≠ zone.getRecord name := by
  refine ⟨⟨fun h name strings hmem hstrings => ?_, fun h name => ?_⟩, fun name text htext hlong heq => ?_⟩
  · obtain ⟨text, htext⟩ := Option.isSome_iff_exists.1 (AList.lookup_isSome.2 hmem)
    obtain ⟨published, hpublished, hlookup⟩ := hr.published name text htext
    obtain rfl : published = strings := by
      rw [hlookup] at hstrings
      simpa using hstrings
    have heq := h name
    rw [Zone.getRecord, htext] at heq
    exact (AsyncResolver.getRecord_eq_iff hpublished hlookup).1 heq
  · cases htext : zone.lookup name with
    | none => exact hr.getRecord_missing htext
    | some text =>
      obtain ⟨strings, hstrings, hlookup⟩ := hr.published name text htext
      have hmem : name ∈ zone := AList.lookup_isSome.1 (by rw [htext]; rfl)
      rw [Zone.getRecord, htext]
      exact (AsyncResolver.getRecord_eq_iff hstrings hlookup).2 (h name strings hmem hlookup)
  · obtain ⟨strings, hstrings, hlookup⟩ := hr.published name text htext
    rw [Zone.getRecord, htext] at heq
    exact hstrings.tail_ne_nil hlong ((AsyncResolver.getRecord_eq_iff hstrings hlookup).1 heq)

/-! ## Full character-strings -/

/-- Bytes in pieces of 255, but for the last one. -/
def pieces : Nat → Bytes → List Bytes
  | 0, b => [b]
  | n + 1, b => if b.length ≤ 255 then [b] else b.take 255 :: pieces n (b.drop 255)

theorem pieces_ne_nil (n : Nat) (b : Bytes) : pieces n b ≠ [] := by
  cases n with
  | zero => simp [pieces]
  | succ n =>
    rw [pieces]
    split <;> simp

theorem flatten_pieces (n : Nat) (b : Bytes) : (pieces n b).flatten = b := by
  induction n generalizing b with
  | zero => simp [pieces]
  | succ n ih =>
    rw [pieces]
    split
    · simp
    · rw [List.flatten_cons, ih, List.take_append_drop]

theorem length_le_of_mem_pieces {n : Nat} {b s : Bytes} (hb : b.length ≤ n + 255) (hs : s ∈ pieces n b) :
    s.length ≤ 255 := by
  induction n generalizing b with
  | zero =>
    obtain rfl : s = b := by simpa [pieces] using hs
    omega
  | succ n ih =>
    rw [pieces] at hs
    split at hs
    · obtain rfl : s = b := by simpa using hs
      omega
    · rcases List.mem_cons.1 hs with rfl | hs
      · exact List.length_take_le 255 b
      · refine ih ?_ hs
        rw [List.length_drop]
        omega

/-- A text in as few character-strings as possible. -/
def publish (text : Text) : List Bytes := pieces text.utf8.length text.utf8

theorem characterStrings_publish (text : Text) : CharacterStrings text (publish text) where
  ne_nil := pieces_ne_nil _ _
  flatten := flatten_pieces _ _
  short _ hs := length_le_of_mem_pieces (by omega) hs

/-- The first character-string of a long text is full. -/
theorem head?_publish {text : Text} (hlong : 255 < text.utf8.length) :
    (publish text).head? = some (text.utf8.take 255) := by
  obtain ⟨n, hn⟩ : ∃ n, text.utf8.length = n + 1 := ⟨_, (Nat.sub_add_cancel (by omega)).symm⟩
  rw [publish, hn, pieces, if_neg (by omega), List.head?_cons]

/-- A resolver that answers from a zone, in as few character-strings as possible. -/
def Zone.resolver (zone : Zone) : AsyncResolver where
  txtLookup query := match query.getLast? with
    | some '.' => match zone.lookup query.dropLast with
      | some text => .ok [publish text]
      | none => .error .noRecordsFound
    | _ => .error .noRecordsFound

theorem Zone.txtLookup_absolute (zone : Zone) (name : Text) : zone.resolver.txtLookup (absolute name) =
    match zone.lookup name with
    | some text => .ok [publish text]
    | none => .error .noRecordsFound := by
  have hdrop : (name ++ ['.']).dropLast = name := List.dropLast_concat
  simp only [resolver, absolute, List.getLast?_concat]
  rw [hdrop]

theorem Zone.serves_resolver (zone : Zone) : zone.resolver.Serves zone where
  missing name h := by rw [txtLookup_absolute, h]
  published name text h := ⟨publish text, characterStrings_publish text, by rw [txtLookup_absolute, h]⟩

/-- What comes back over DNS is the first character-string. -/
theorem Zone.getRecord_resolver {name text first : Text} (hlookup : zone.lookup name = some text)
    (hfirst : (publish text).head? = some first.utf8) : zone.resolver.getRecord display name = .ok (some first) := by
  rw [AsyncResolver.getRecord, txtLookup_absolute, hlookup]
  simp only [List.head?_cons, hfirst, Text.ofUtf8_utf8]

/-- **Texts of at most 255 bytes** are published in one piece, if the character-strings are filled. -/
theorem Zone.onePiece_resolver (zone : Zone) :
    zone.resolver.OnePiece zone ↔ ∀ name text, zone.lookup name = some text → text.utf8.length ≤ 255 := by
  constructor
  · intro h name text htext
    by_contra hlong
    have hmem : name ∈ zone := AList.lookup_isSome.1 (by rw [htext]; rfl)
    have hlookup : zone.resolver.txtLookup (absolute name) = .ok [publish text] := by rw [txtLookup_absolute, htext]
    exact (characterStrings_publish text).tail_ne_nil (by omega) (h name _ hmem hlookup)
  · intro h name strings hmem hlookup
    obtain ⟨text, htext⟩ := Option.isSome_iff_exists.1 (AList.lookup_isSome.2 hmem)
    have hshort := h name text htext
    obtain rfl : publish text = strings := by
      rw [txtLookup_absolute, htext] at hlookup
      simpa using hlookup
    have hone : publish text = [text.utf8] := by
      rw [publish]
      cases text.utf8.length with
      | zero => rfl
      | succ n => rw [pieces, if_pos hshort]
    rw [hone]
    rfl

/-! ## Texts of 255 and of 256 letters -/

/-- One name, with a text of so many letters. -/
def letterZone (n : Nat) : Zone := AList.insert ['n'] (List.replicate n 'a') ∅

theorem lookup_letterZone {n : Nat} {name text : Text} (h : (letterZone n).lookup name = some text) :
    text = List.replicate n 'a' := by
  by_cases hname : name = ['n']
  · subst hname
    rw [letterZone, AList.lookup_insert] at h
    exact (Option.some.inj h).symm
  · rw [letterZone, AList.lookup_insert_ne hname, AList.lookup_empty] at h
    cases h

theorem utf8_replicate (n : Nat) : Text.utf8 (List.replicate n 'a') = List.replicate n 97 := by
  induction n with
  | zero => rfl
  | succ n ih =>
    rw [List.replicate_succ, List.replicate_succ, ← ih]
    rfl

/-- With 255 letters the text comes back over DNS as well. -/
theorem letters_agree : (letterZone 255).resolver.getRecord (fun _ => []) ['n'] =
    .ok (some (List.replicate 255 'a')) := by
  have hone : (letterZone 255).resolver.OnePiece (letterZone 255) :=
    (letterZone 255).onePiece_resolver.2 fun name text h => by
      rw [lookup_letterZone h, utf8_replicate, List.length_replicate]
  have hagree := (backends_agree_iff (fun _ => []) (letterZone 255).serves_resolver).1.2 hone ['n']
  have hlookup : (letterZone 255).lookup ['n'] = some (List.replicate 255 'a') := AList.lookup_insert _
  rw [hagree, Zone.getRecord, hlookup]

/-- **A text of 256 letters.** The map has all of them, and DNS all but the last. -/
theorem last_letter_lost : (letterZone 256).resolver.Serves (letterZone 256) ∧
    (letterZone 256).getRecord ['n'] = .ok (some (List.replicate 256 'a')) ∧
    (letterZone 256).resolver.getRecord (fun _ => []) ['n'] = .ok (some (List.replicate 255 'a')) := by
  have hlookup : (letterZone 256).lookup ['n'] = some (List.replicate 256 'a') := AList.lookup_insert _
  have hfirst : (publish (List.replicate 256 'a')).head? = some (Text.utf8 (List.replicate 255 'a')) := by
    rw [head?_publish (by rw [utf8_replicate, List.length_replicate]; decide), utf8_replicate, utf8_replicate,
      List.take_replicate, Nat.min_eq_left (by decide)]
  refine ⟨Zone.serves_resolver _, ?_, ?_⟩
  · rw [Zone.getRecord, hlookup]
  · exact Zone.getRecord_resolver hlookup hfirst

end Dnsdisc

end EthereumSentry

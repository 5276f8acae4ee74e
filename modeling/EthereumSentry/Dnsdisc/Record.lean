import Mathlib.Data.List.Dedup
import EthereumSentry.Lib.BaseN

/-!
# Records of a tree

`src/dnsdisc/src/lib.rs`: the text of a record is that of a root, a link, a branch or a node record
(`DnsRecord.fromStr`). A root is verified against its text without the signature (`RootRecord.verify`).
-/

set_option autoImplicit false

namespace EthereumSentry

namespace Dnsdisc

/-! ## Texts -/

/-- `char::is_whitespace`. -/
def isWhitespace (c : Char) : Bool :=
  let n := c.toNat
  (0x09 ≤ n && n ≤ 0x0d) || n = 0x20 || n = 0x85 || n = 0xa0 || n = 0x1680 || (0x2000 ≤ n && n ≤ 0x200a) ||
    n = 0x2028 || n = 0x2029 || n = 0x202f || n = 0x205f || n = 0x3000

/-- `str::strip_prefix`. -/
def stripPrefix (pre s : Text) : Option Text := if pre.isPrefixOf s then some (s.drop pre.length) else none

/-- `str::trim`. -/
def trim (s : Text) : Text := ((s.dropWhile isWhitespace).reverse.dropWhile isWhitespace).reverse

/-- `str::split`, at the characters that satisfy a predicate. -/
def split (p : Char → Bool) : Text → List Text
  | [] => [[]]
  | c :: s => if p c then [] :: split p s else match split p s with
    | [] => [[c]]
    | part :: parts => (c :: part) :: parts

/-- No character of a text satisfies the predicate. -/
def Free (p : Char → Bool) (s : Text) : Prop := ∀ c ∈ s, p c = false

instance (p : Char → Bool) (s : Text) : Decidable (Free p s) := List.decidableBAll _ s

section

variable {p : Char → Bool}

theorem split_of_free {s : Text} (h : Free p s) : split p s = [s] := by
  induction s with
  | nil => rfl
  | cons c s ih =>
    obtain ⟨hc, hs⟩ := List.forall_mem_cons.1 h
    rw [split, hc, ih hs]
    rfl

/-- A text is split at the first character that separates. -/
theorem split_append {s : Text} (h : Free p s) {c : Char} (hc : p c = true) (rest : Text) :
    split p (s ++ c :: rest) = s :: split p rest := by
  induction s with
  | nil => rw [List.nil_append, split, if_pos hc]
  | cons d s ih =>
    obtain ⟨hd, hs⟩ := List.forall_mem_cons.1 h
    rw [List.cons_append, split, hd, ih hs]
    rfl

/-- Parts that are put together with separators are split again. -/
theorem split_intercalate {c : Char} (hc : p c = true) : ∀ {part : Text} {parts : List Text},
    (∀ s ∈ part :: parts, Free p s) → split p ([c].intercalate (part :: parts)) = part :: parts
  | part, [], h => by
    rw [List.intercalate_singleton, split_of_free (h part (.head _))]
  | part, next :: parts, h => by
    obtain ⟨hpart, hparts⟩ := List.forall_mem_cons.1 h
    rw [List.intercalate_cons_cons, List.append_assoc, List.singleton_append, split_append hpart hc,
      split_intercalate hc hparts]

end

/-- `str::split_whitespace`. -/
def splitWhitespace (s : Text) : List Text := (split isWhitespace s).filter (· ≠ [])

/-- `usize::from_str`. -/
def parseUsize (s : Text) : Option Nat :=
  let digits := match s with
    | '+' :: rest => rest
    | _ => s
  if digits ≠ [] ∧ digits.all Char.isDigit then
    let n := digits.foldl (fun n c => 10 * n + (c.toNat - '0'.toNat)) 0
    if n < 2 ^ 64 then some n else none
  else none

def base32HashLen : Nat := 26

/-- `Base32Hash`: a string of at most 26 bytes. -/
structure Base32Hash where
  text : Text
  fits : text.utf8.length ≤ base32HashLen
  deriving DecidableEq

/-- `ArrayString::from_str`. -/
def Base32Hash.parse (s : Text) : Option Base32Hash :=
  if h : s.utf8.length ≤ base32HashLen then some ⟨s, h⟩ else none

/-! ## Records -/

/-- The entry points of `enr`. -/
structure EnrCrates where
  PublicKey : Type
  Enr : Type
  /-- `K::decode_public`. -/
  decodePublic : Bytes → Option PublicKey
  /-- `PublicKey::encode`. -/
  encode : PublicKey → Bytes
  /-- `PublicKey::verify_v4`. -/
  verifyV4 : PublicKey → Bytes → Bytes → Bool
  /-- `Enr::from_str`. -/
  parseEnr : Text → Option Enr

/-- Why a text is no record. -/
inductive RecordError where
  | hashTooLong
  | invalidSequence
  | invalidSignature
  | enrRootAbsent
  | linkRootAbsent
  | sequenceNotFound
  | signatureNotFound
  | invalidPublicKey
  | domainNotFound
  | invalidEnr
  | invalidString (s : Text)
  deriving DecidableEq

def rootPrefix : Text := "enrtree-root:v1".toList
def linkPrefix : Text := "enrtree://".toList
def branchPrefix : Text := "enrtree-branch:".toList
def enrPrefix : Text := "enr:".toList

/-- `UnsignedRoot`. -/
structure UnsignedRoot where
  enrRoot : Base32Hash
  linkRoot : Base32Hash
  sequence : Nat
  deriving DecidableEq

/-- `Display`. -/
def UnsignedRoot.display (r : UnsignedRoot) : Text :=
  rootPrefix ++ " e=".toList ++ r.enrRoot.text ++ " l=".toList ++ r.linkRoot.text ++ " seq=".toList ++
    Nat.toDigits 10 r.sequence

/-- `RootRecord`. -/
structure RootRecord where
  base : UnsignedRoot
  signature : Bytes

/-- `RootRecord::verify`. -/
def RootRecord.verify (k : EnrCrates) (r : RootRecord) (pk : k.PublicKey) : Bool :=
  k.verifyV4 pk r.base.display.utf8 (r.signature.take 64)

/-- `DnsRecord`. -/
inductive DnsRecord (k : EnrCrates) where
  | root (record : RootRecord)
  | link (publicKey : k.PublicKey) (domain : Text)
  | branch (children : List Base32Hash)
  | enr (record : k.Enr)

/-- The printers of `enr`. -/
structure EnrText (k : EnrCrates) where
  /-- `PublicKey::encode_uncompressed`. -/
  encodeUncompressed : k.PublicKey → Bytes
  /-- `Enr::to_base64`. -/
  toBase64 : k.Enr → Text

/-- `Display`. -/
def RootRecord.display (r : RootRecord) : Text :=
  r.base.display ++ " sig=".toList ++ BaseN.pad64 (BaseN.encode 6 BaseN.base64 r.signature)

/-- `Display`. The children of a branch are listed as the set is iterated over. -/
def DnsRecord.display {k : EnrCrates} (print : EnrText k) : DnsRecord k → Text
  | .root record => record.display
  | .link publicKey domain =>
    linkPrefix ++ BaseN.encode 5 BaseN.base32 (print.encodeUncompressed publicKey) ++ '@' :: domain
  | .branch children => branchPrefix ++ [','].intercalate (children.map Base32Hash.text)
  | .enr record => print.toBase64 record

/-- The entries of a root that have been read. -/
structure RootEntries where
  e : Option Base32Hash
  l : Option Base32Hash
  seq : Option Nat
  sig : Option Bytes

/-- Read an entry of a root. -/
def RootEntries.read (r : RootEntries) (entry : Text) : Except RecordError RootEntries :=
  match stripPrefix "e=".toList entry with
  | some v => match Base32Hash.parse v with
    | some v => .ok { r with e := some v }
    | none => .error .hashTooLong
  | none => match stripPrefix "l=".toList entry with
    | some v => match Base32Hash.parse v with
      | some v => .ok { r with l := some v }
      | none => .error .hashTooLong
    | none => match stripPrefix "seq=".toList entry with
      | some v => match parseUsize v with
        | some v => .ok { r with seq := some v }
        | none => .error .invalidSequence
      | none => match stripPrefix "sig=".toList entry with
        | some v => match BaseN.decode 6 BaseN.base64url v with
          | some v => .ok { r with sig := some v }
          | none => .error .invalidSignature
        | none => .error (.invalidString entry)

/-- The root with some entries. -/
def RootEntries.finish (r : RootEntries) : Except RecordError RootRecord :=
  match r.e, r.l, r.seq, r.sig with
  | none, _, _, _ => .error .enrRootAbsent
  | _, none, _, _ => .error .linkRootAbsent
  | _, _, none, _ => .error .sequenceNotFound
  | _, _, _, none => .error .signatureNotFound
  | some e, some l, some seq, some sig => .ok ⟨⟨e, l, seq⟩, sig⟩

namespace DnsRecord

variable (k : EnrCrates)

/-- The part of `from_str` for a root, after its prefix. -/
def parseRoot (rest : Text) : Except RecordError (DnsRecord k) := do
  let entries ← (splitWhitespace (trim rest)).foldlM RootEntries.read ⟨none, none, none, none⟩
  return .root (← entries.finish)

/-- The part of `from_str` for a link, after its prefix. -/
def parseLink (rest : Text) : Except RecordError (DnsRecord k) :=
  match split (· = '@') rest with
  | [] => .error .invalidPublicKey
  | key :: parts => match (BaseN.decode 5 BaseN.base32 key).bind k.decodePublic with
    | none => .error .invalidPublicKey
    | some publicKey => match parts with
      | [] => .error .domainNotFound
      | domain :: _ => .ok (.link publicKey domain)

/-- The part of `from_str` for a branch, after its prefix. The children are a set. -/
def parseBranch (rest : Text) : Except RecordError (DnsRecord k) :=
  match ((split (· = ',') (trim rest)).filter (· ≠ [])).mapM Base32Hash.parse with
  | some children => .ok (.branch children.dedup)
  | none => .error .hashTooLong

/-- `DnsRecord::from_str`. -/
def fromStr (s : Text) : Except RecordError (DnsRecord k) :=
  match stripPrefix rootPrefix s with
  | some rest => parseRoot k rest
  | none => match stripPrefix linkPrefix s with
    | some rest => parseLink k rest
    | none => match stripPrefix branchPrefix s with
      | some rest => parseBranch k rest
      | none =>
        if enrPrefix.isPrefixOf s then match k.parseEnr s with
          | some record => .ok (.enr record)
          | none => .error .invalidEnr
        else .error (.invalidString s)

end DnsRecord

end Dnsdisc

end EthereumSentry

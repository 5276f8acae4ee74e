import EthereumSentry.Devp2p.Peer.Negotiation

/-!
# Unknown capabilities

A `Hello` may offer capabilities that are not known locally. Each entry of the list passes through the decoder of
`CapabilityName`, which holds four bytes: an entry with a name that fits leaves the outcome of `PeerStream::new` as it
is (`foreign_ignored`), and one longer name makes the whole `Hello` fail (`long_name_refused`).
-/

set_option autoImplicit false

namespace EthereumSentry

variable {c : Crates}

/-! ## Outcomes that are alike -/

/-- Both fail with the same error, or both return related values. -/
def Alike {ε α β : Type} (R : α → β → Prop) (x : Except ε α) (y : Except ε β) : Prop :=
  (∃ e, x = .error e ∧ y = .error e) ∨ ∃ a b, x = .ok a ∧ y = .ok b ∧ R a b

namespace Alike

variable {ε α β γ δ : Type} {R : α → β → Prop} {Q : γ → δ → Prop}

theorem ok {a : α} {b : β} (h : R a b) : Alike R (.ok a : Except ε α) (.ok b) := .inr ⟨a, b, rfl, rfl, h⟩

theorem refl (x : Except ε α) : Alike Eq x x := by
  cases x with
  | error e => exact .inl ⟨e, rfl, rfl⟩
  | ok a => exact .ok rfl

/-- Sequences are alike when their parts are. -/
theorem bind {x : Except ε α} {y : Except ε β} {f : α → Except ε γ} {g : β → Except ε δ} (h : Alike R x y)
    (hfg : ∀ a b, R a b → Alike Q (f a) (g b)) : Alike Q (x >>= f) (y >>= g) := by
  rcases h with ⟨e, rfl, rfl⟩ | ⟨a, b, rfl, rfl, hab⟩
  · exact .inl ⟨e, rfl, rfl⟩
  · exact hfg a b hab

/-- A sequence with the same first part. -/
theorem bind_same (x : Except ε α) {f : α → Except ε γ} {g : α → Except ε δ} (hfg : ∀ a, Alike Q (f a) (g a)) :
    Alike Q (x >>= f) (x >>= g) :=
  (refl x).bind fun a _ h => h ▸ hfg a

end Alike

/-- What fails in any case fails after something else too. -/
theorem exists_error_bind {ε α β : Type} (x : Except ε α) {f : α → Except ε β} (h : ∀ a, ∃ e, f a = .error e) :
    ∃ e, (x >>= f) = .error e := by
  cases x with
  | error e => exact ⟨e, rfl⟩
  | ok a => exact h a

/-- One element that does not decode makes the list fail. -/
theorem exists_error_mapM {ε α β : Type} {f : α → Except ε β} {l : List α} {x : α} (hx : x ∈ l)
    (h : ∃ e, f x = .error e) : ∃ e, l.mapM f = .error e := by
  induction l with
  | nil => cases hx
  | cons y l ih =>
    rw [List.mapM_cons]
    rcases List.mem_cons.1 hx with rfl | hx
    · obtain ⟨e, he⟩ := h
      exact ⟨e, by rw [he]; rfl⟩
    · obtain ⟨e, he⟩ := ih hx
      exact exists_error_bind _ fun _ => ⟨e, by rw [he]; rfl⟩

/-! ## Inserted entries -/

/-- Well-formed entries are inserted at any positions, with names and versions that are allowed. -/
inductive Inserted (c : Crates) (allowed : String → Nat → Prop) : List Bytes → List Bytes → Prop
  | nil : Inserted c allowed [] []
  | keep (x : Bytes) {xs ys : List Bytes} (h : Inserted c allowed xs ys) : Inserted c allowed (x :: xs) (x :: ys)
  | insert {name : String} {version : Nat} (hv : version < usizeBound) (ha : allowed name version)
      {xs ys : List Bytes} (h : Inserted c allowed xs ys) : Inserted c allowed xs (encodeEntry c name version :: ys)

/-- The capability is not offered locally. -/
def NotOffered (caps : List CapabilityInfo) (name : String) (version : Nat) : Prop :=
  ∀ cap ∈ caps, ¬(cap.name.text = name ∧ cap.version = version)

/-- The bytes of a `Hello` as they are received: any items for its fields, any entries, any bytes after it. -/
structure RawHello (c : Crates) where
  protocolVersion : Bytes
  clientVersion : Bytes
  entries : List Bytes
  rest : List Bytes
  tail : Bytes
  nested₀ : c.rlp.IsNested protocolVersion
  nested₁ : c.rlp.IsNested clientVersion
  nested_entries : ∀ x ∈ entries, c.rlp.IsNested x
  nested_rest : ∀ x ∈ rest, c.rlp.IsNested x
  size : (c.rlp.encodeList (HelloMessage.items c protocolVersion clientVersion entries rest)).length < usizeBound

namespace RawHello

/-- The payload. -/
def payload (h : RawHello c) : Bytes :=
  c.rlp.encodeList (HelloMessage.items c h.protocolVersion h.clientVersion h.entries h.rest) ++ h.tail

/-- The frame. -/
def frame (h : RawHello c) : Bytes := c.rlp.encodeUint 0 ++ h.payload

/-- The other `Hello` has more entries, and is the same apart from that. -/
structure Extends (allowed : String → Nat → Prop) (h h' : RawHello c) : Prop where
  protocolVersion : h'.protocolVersion = h.protocolVersion
  clientVersion : h'.clientVersion = h.clientVersion
  entries : Inserted c allowed h.entries h'.entries
  rest : h'.rest = h.rest

/-- The end of a decoder, after the entries. -/
theorem decode_payload (hl : c.rlp.ListLaws) (h : RawHello c) : HelloMessage.decode c h.payload = (do
      let protocolVersion ← c.rlp.uint 8 h.protocolVersion
      let clientVersion ← HelloMessage.decodeString c h.clientVersion
      let capabilities ← h.entries.mapM (CapabilityMessage.decode c)
      let port ← c.rlp.uint 2 (← (h.rest[0]?).elim (.error .rlpIsTooShort) .ok)
      let id ← c.rlp.hash 64 (← (h.rest[1]?).elim (.error .rlpIsTooShort) .ok)
      .ok ⟨protocolVersion, clientVersion, capabilities, port, id⟩) :=
  HelloMessage.decode_list hl h.nested₀ h.nested₁ h.nested_entries h.nested_rest h.size h.tail

theorem entry_length (hl : c.rlp.ListLaws) (h : RawHello c) {x : Bytes} (hx : x ∈ h.entries) :
    x.length < usizeBound := by
  have h₁ : x.length ≤ (c.rlp.encodeList h.entries).length := hl.length_item_le hx
  have h₂ : (c.rlp.encodeList h.entries).length ≤ (c.rlp.encodeList
      (HelloMessage.items c h.protocolVersion h.clientVersion h.entries h.rest)).length :=
    hl.length_item_le (by simp [HelloMessage.items])
  exact (h₁.trans h₂).trans_lt h.size

end RawHello

/-! ## What the decoder makes of them -/

/-- The names and versions that matter are the same. -/
def SameOffers (caps : List CapabilityInfo) (l l' : List CapabilityMessage) : Prop :=
  ∀ cap ∈ caps, (⟨cap.name, cap.version⟩ : CapabilityMessage) ∈ l' ↔ ⟨cap.name, cap.version⟩ ∈ l

/-- **The entries decode alike**: to the same error, or to lists that offer the same. -/
theorem Inserted.mapM_decode (hl : c.rlp.ListLaws) {caps : List CapabilityInfo} {xs ys : List Bytes}
    (h : Inserted c (fun name version => name.utf8ByteSize ≤ 4 ∧ NotOffered caps name version) xs ys)
    (hsize : ∀ y ∈ ys, y.length < usizeBound) :
    Alike (SameOffers caps) (xs.mapM (CapabilityMessage.decode c)) (ys.mapM (CapabilityMessage.decode c)) := by
  induction h with
  | nil => exact .ok fun _ _ => Iff.rfl
  | @keep x xs ys _ ih =>
    rw [List.mapM_cons, List.mapM_cons]
    refine .bind_same _ fun m => .bind (ih fun y hy => hsize y (by simp [hy])) fun l l' hsame => .ok ?_
    intro cap hcap
    simp only [List.mem_cons, hsame cap hcap]
  | @insert name version hv ha xs ys _ ih =>
    have hentry : CapabilityMessage.decode c (encodeEntry c name version) = .ok ⟨⟨name, ha.1⟩, version⟩ := by
      rw [CapabilityMessage.decode_entry hl hv (hsize _ (by simp)), CapabilityName.ofString?, dif_pos ha.1]
      rfl
    rw [List.mapM_cons, hentry, ← bind_pure (xs.mapM _)]
    change Alike _ _ (ys.mapM (CapabilityMessage.decode c) >>= fun l' => .ok (⟨⟨name, ha.1⟩, version⟩ :: l'))
    refine .bind (ih fun y hy => hsize y (by simp [hy])) fun l l' hsame => .ok ?_
    intro cap hcap
    rw [List.mem_cons, hsame cap hcap]
    -- the inserted entry is none of the local ones
    refine or_iff_right fun he => ha.2 cap hcap ?_
    rw [CapabilityMessage.mk.injEq] at he
    exact ⟨congrArg CapabilityName.text he.1, he.2⟩

/-- The whole message decodes alike. -/
theorem RawHello.Extends.decode (hl : c.rlp.ListLaws) {caps : List CapabilityInfo} {h h' : RawHello c}
    (hext : h.Extends (fun name version => name.utf8ByteSize ≤ 4 ∧ NotOffered caps name version) h') :
    Alike (fun m m' => SameOffers caps m.capabilities m'.capabilities) (HelloMessage.decode c h.payload)
      (HelloMessage.decode c h'.payload) := by
  rw [h.decode_payload hl, h'.decode_payload hl, hext.protocolVersion, hext.clientVersion, hext.rest]
  refine .bind_same _ fun protocolVersion => .bind_same _ fun clientVersion => ?_
  refine .bind (hext.entries.mapM_decode hl fun y hy => h'.entry_length hl hy) fun l l' hsame => ?_
  -- what follows the entries is the same
  refine .bind_same _ fun portItem => .bind_same _ fun port => ?_
  exact .bind_same _ fun idItem => .bind_same _ fun id => .ok hsame

/-! ## The outcome of `new` -/

namespace PeerStream

variable {S : Type} {F F' : Frames S}

/-- The negotiation only looks for the local capabilities. -/
theorem shareCapabilities_congr {caps : List CapabilityInfo} {l l' : List CapabilityMessage}
    (h : SameOffers caps l l') : shareCapabilities caps l' = shareCapabilities caps l := by
  have hfilter : (caps.filter fun cap => l'.any fun v => v.name = cap.name ∧ v.version = cap.version) =
      caps.filter fun cap => l.any fun v => v.name = cap.name ∧ v.version = cap.version := by
    refine List.filter_congr fun cap hcap => ?_
    rw [Bool.eq_iff_iff, any_eq_true_iff, any_eq_true_iff]
    exact h cap hcap
  rw [shareCapabilities, shareCapabilities, hfilter]

/-- The end of `new` only sends. -/
theorem finish_congr (h : F'.startSend = F.startSend) (n : Setup) (shared : List CapabilityInfo) :
    n.finish c F' shared = n.finish c F shared := by
  have hsend : ∀ m, startSend c F' m = startSend c F m := fun m => by
    simp only [startSend, h]
  simp only [Setup.finish, hsend]

/-- Entries with names that fit do not interfere. -/
theorem foreign_ignored (hr : c.rlp.Lawful) (hl : c.rlp.ListLaws) (hF : F'.startSend = F.startSend) (n : Setup)
    {h h' : RawHello c}
    (hext : h.Extends (fun name version => name.utf8ByteSize ≤ 4 ∧ NotOffered n.capabilities name version) h')
    {s t u : S} (hsend : (F.startSend (helloFrame c n.hello)).run s = .ok () t)
    (hrecv : F.pollNext.run t = .ok (.ready (some h.frame)) u)
    (hrecv' : F'.pollNext.run t = .ok (.ready (some h'.frame)) u) :
    (n.new c F').run s = (n.new c F).run s := by
  have hsend' : (F'.startSend (helloFrame c n.hello)).run s = .ok () t := by rw [hF, hsend]
  rw [run_new_of_frame hsend hrecv, run_new_of_frame hsend' hrecv', EStateM.run_bind, EStateM.run_bind,
    RawHello.frame, RawHello.frame, run_readHello_zero hr hl, run_readHello_zero hr hl]
  rcases hext.decode hl with ⟨e, h₁, h₂⟩ | ⟨m, m', h₁, h₂, hsame⟩
  · rw [h₁, h₂]
    rfl
  · rw [h₁, h₂, Prog.run_ofExcept_ok, Prog.run_ofExcept_ok]
    dsimp only
    rw [shareCapabilities_congr hsame, finish_congr hF]

/-- One longer name makes the whole `Hello` fail. -/
theorem long_name_refused (hr : c.rlp.Lawful) (hl : c.rlp.ListLaws) (n : Setup) {h : RawHello c} {name : String}
    {version : Nat} (hv : version < usizeBound) (hlong : 4 < name.utf8ByteSize)
    (hmem : encodeEntry c name version ∈ h.entries) {s t u : S}
    (hsend : (F.startSend (helloFrame c n.hello)).run s = .ok () t)
    (hrecv : F.pollNext.run t = .ok (.ready (some h.frame)) u) :
    ∃ e, (n.new c F).run s = .error (.err (.rlp e)) u := by
  have hentry : CapabilityMessage.decode c (encodeEntry c name version) = .error .rlpIsTooBig := by
    rw [CapabilityMessage.decode_entry hl hv (h.entry_length hl hmem), CapabilityName.ofString?,
      dif_neg (Nat.not_le.2 hlong)]
    rfl
  obtain ⟨e, he⟩ : ∃ e, HelloMessage.decode c h.payload = .error e := by
    rw [h.decode_payload hl]
    refine exists_error_bind _ fun _ => exists_error_bind _ fun _ => ?_
    obtain ⟨e, he⟩ := exists_error_mapM hmem ⟨_, hentry⟩
    exact ⟨e, by rw [he]; rfl⟩
  refine ⟨e, ?_⟩
  rw [run_new_of_frame hsend hrecv]
  refine Prog.run_bind_err ?_ _
  rw [RawHello.frame, run_readHello_zero hr hl, he, Prog.run_ofExcept_error]

/-- **Unknown capabilities.** Two transports take the same frames and differ in the `Hello` that is received: one has
entries inserted that are not offered locally. With names of at most four bytes, `new` has the same outcome: the same
stream with the same capabilities, or the same failure. With a longer name, it fails. -/
theorem foreign_outcome (hr : c.rlp.Lawful) (hl : c.rlp.ListLaws) (hF : F'.startSend = F.startSend) (n : Setup)
    {h h' : RawHello c} {s t u : S} (hsend : (F.startSend (helloFrame c n.hello)).run s = .ok () t)
    (hrecv : F.pollNext.run t = .ok (.ready (some h.frame)) u)
    (hrecv' : F'.pollNext.run t = .ok (.ready (some h'.frame)) u) :
    (h.Extends (fun name version => name.utf8ByteSize ≤ 4 ∧ NotOffered n.capabilities name version) h' →
      (n.new c F').run s = (n.new c F).run s) ∧
    ∀ name version, version < usizeBound → 4 < name.utf8ByteSize → encodeEntry c name version ∈ h'.entries →
      ∃ e, (n.new c F').run s = .error (.err (.rlp e)) u := by
  constructor
  · exact fun hext => foreign_ignored hr hl hF n hext hsend hrecv hrecv'
  · intro name version hv hlong hmem
    exact long_name_refused hr hl n hv hlong hmem (by rw [hF, hsend]) hrecv'

section Example

open Software

/-- A transport that has received this frame. -/
def answering (frame : Bytes) : Frames (List Bytes) where
  pollNext := pure (.ready (some frame))
  startSend sent := modify fun s => s ++ [sent]

theorem run_startSend_answering (frame sent : Bytes) (s : List Bytes) :
    ((answering frame).startSend sent).run s = .ok () (s ++ [sent]) := rfl

theorem run_pollNext_answering (frame : Bytes) (s : List Bytes) :
    (answering frame).pollNext.run s = .ok (.ready (some frame)) s := rfl

theorem startSend_answering (frame frame' : Bytes) : (answering frame').startSend = (answering frame).startSend := rfl

/-- The items of the `Hello` of the node after its capabilities. -/
def Setup.restItems (c : Crates) (n : Setup) : List Bytes :=
  [c.rlp.encodeUint n.port, c.rlp.encodeBytes n.id.bytes]

theorem Setup.restItems_nested {n : Setup} (hn : n.port < 2 ^ 16) : ∀ x ∈ n.restItems c, c.rlp.IsNested x := by
  have hport : n.port < 2 ^ 64 := hn.trans (by decide)
  simp only [restItems, List.mem_cons, List.not_mem_nil, or_false, forall_eq_or_imp, forall_eq]
  exact ⟨.uint hport, .bytes _⟩

theorem toUsize_lt (v : ProtocolVersion) : v.toUsize < 2 ^ 64 := by cases v <;> decide

theorem entries_nested {entries : List (String × Nat)} (hv : ∀ entry ∈ entries, entry.2 < usizeBound) :
    ∀ x ∈ entries.map fun e => encodeEntry c e.1 e.2, c.rlp.IsNested x := by
  intro x hx
  obtain ⟨e, he, rfl⟩ := List.mem_map.1 hx
  exact encodeEntry_nested _ (hv e he)

/-- The `Hello` of the node, with these entries in its list. -/
def Setup.rawHello (c : Crates) (n : Setup) (entries : List (String × Nat))
    (hv : ∀ entry ∈ entries, entry.2 < usizeBound) (hn : n.port < 2 ^ 16)
    (hs : (c.rlp.encodeList (HelloMessage.items c (c.rlp.encodeUint n.protocolVersion.toUsize)
      (c.rlp.encodeBytes (utf8 n.clientVersion)) (entries.map fun e => encodeEntry c e.1 e.2)
      (n.restItems c))).length < usizeBound) : RawHello c :=
  ⟨c.rlp.encodeUint n.protocolVersion.toUsize, c.rlp.encodeBytes (utf8 n.clientVersion),
    entries.map fun e => encodeEntry c e.1 e.2, n.restItems c, [], .uint (toUsize_lt _), .bytes _, entries_nested hv,
    Setup.restItems_nested hn, hs⟩

/-- The `Hello` of the example node, as it is, with `les` in version 2, and with a capability `proto`. -/
def plainHello : RawHello crates :=
  ethNode.rawHello crates [("eth", 65), ("eth", 66)] (by decide) (by decide) (by decide +kernel)

def lesHello : RawHello crates :=
  ethNode.rawHello crates [("eth", 65), ("les", 2), ("eth", 66)] (by decide) (by decide) (by decide +kernel)

def protoHello : RawHello crates :=
  ethNode.rawHello crates [("eth", 65), ("proto", 1), ("eth", 66)] (by decide) (by decide) (by decide +kernel)

theorem les_not_offered : NotOffered ethLesNode.capabilities "les" 2 := by
  simp [NotOffered, ethLesNode, les, eth, eth65]

/-- An older `les` is inserted. -/
theorem lesHello_extends : plainHello.Extends
    (fun name version => name.utf8ByteSize ≤ 4 ∧ NotOffered ethLesNode.capabilities name version) lesHello where
  protocolVersion := rfl
  clientVersion := rfl
  entries :=
    have h : (2 : Nat) < usizeBound := by decide
    have h₄ : "les".utf8ByteSize ≤ 4 := by decide
    .keep (encodeEntry crates "eth" 65) (.insert h ⟨h₄, les_not_offered⟩ (.keep (encodeEntry crates "eth" 66) .nil))
  rest := rfl

/-- It does not interfere. -/
theorem lesHello_ignored :
    (ethLesNode.new crates (answering lesHello.frame)).run [] =
      (ethLesNode.new crates (answering plainHello.frame)).run [] :=
  (foreign_outcome Rlp.standard_lawful Rlp.standard_listLaws
    (startSend_answering plainHello.frame lesHello.frame) ethLesNode
    (run_startSend_answering plainHello.frame _ []) (run_pollNext_answering plainHello.frame _)
    (run_pollNext_answering lesHello.frame _)).1 lesHello_extends

theorem proto_not_offered : NotOffered ethLesNode.capabilities "proto" 1 := by
  simp [NotOffered, ethLesNode, les, eth, eth65]

/-- `proto` is inserted. -/
theorem protoHello_extends : plainHello.Extends (NotOffered ethLesNode.capabilities) protoHello where
  protocolVersion := rfl
  clientVersion := rfl
  entries :=
    have h : (1 : Nat) < usizeBound := by decide
    .keep (encodeEntry crates "eth" 65) (.insert h proto_not_offered (.keep (encodeEntry crates "eth" 66) .nil))
  rest := rfl

/-- Without `proto`, the node completes `new`. -/
theorem plainHello_opens : ∃ p s, (ethLesNode.new crates (answering plainHello.frame)).run [] = .ok (.ready p) s := by
  have hframe : plainHello.frame = helloFrame crates ethNode.hello := by
    rw [RawHello.frame, RawHello.payload]
    exact congrArg _ (List.append_nil _)
  rw [run_new_of_frame (run_startSend_answering plainHello.frame _ []) (run_pollNext_answering plainHello.frame _),
    hframe, Prog.run_bind_ok (run_readHello_helloFrame Rlp.standard_lawful Rlp.standard_listLaws ethNode_fits _)]
  exact ⟨_, _, run_finish (by decide +kernel) _⟩

/-- A capability with a name of five bytes makes `new` fail. -/
theorem proto_interferes : ¬∀ (n : Setup) (h h' : RawHello crates), h.Extends (NotOffered n.capabilities) h' →
    (n.new crates (answering h'.frame)).run [] = (n.new crates (answering h.frame)).run [] := by
  intro hall
  have hsame := hall ethLesNode plainHello protoHello protoHello_extends
  obtain ⟨p, s, hopens⟩ := plainHello_opens
  have hv : (1 : Nat) < usizeBound := by decide
  have hlong : 4 < "proto".utf8ByteSize := by decide
  have hmem : encodeEntry crates "proto" 1 ∈ protoHello.entries :=
    List.mem_cons_of_mem _ (List.mem_cons_self ..)
  obtain ⟨e, he⟩ := long_name_refused Rlp.standard_lawful Rlp.standard_listLaws ethLesNode hv hlong hmem
    (run_startSend_answering protoHello.frame _ []) (run_pollNext_answering protoHello.frame _)
  rw [hopens, he] at hsame
  cases hsame

end Example

end PeerStream

end EthereumSentry

import EthereumSentry.Dnsdisc.Record
import EthereumSentry.Lib.Runs

/-!
# Resolution of a tree

`src/dnsdisc/src/lib.rs`: the stream of a query (`resolve_tree`) follows the link subtree and then the ENR subtree of a
root. Every child of a branch is resolved by a task of its own (`resolve_branch`), which sends what it finds over a
channel with room for one item; a task that finds a branch or a link forwards the items below it.

An event lets the stream of the query, or one task, take its next step. All orders of events are runs, so a run may let
any of the tasks that wait for room send first. A task or a stream takes no step where it has to wait.
-/

set_option autoImplicit false

namespace EthereumSentry

namespace Dnsdisc

/-- `Backend::get_record`: the record at a name, if any, or why the lookup fails. -/
abbrev Backend : Type := Text → Except Text (Option Text)

/-- The keys of some domains. -/
abbrev Whitelist (k : EnrCrates) : Type := Text → Option k.PublicKey

/-- Why a query fails. -/
inductive DnsError (k : EnrCrates) where
  | backend (e : Text)
  | record (e : RecordError)
  | publicKeyMismatch
  | expectedRoot (record : DnsRecord k)
  | unexpectedLink (subdomain : Base32Hash)
  | unexpectedEnr (subdomain : Base32Hash)
  | unexpectedRoot (subdomain : Base32Hash)
  | unexpectedRecordType

/-- `BranchKind`. -/
inductive BranchKind (k : EnrCrates) where
  | enr
  | link (remoteWhitelist : Option (Whitelist k))

/-- The arguments of `resolve_tree`. -/
structure Tree (k : EnrCrates) where
  host : Text
  publicKey : Option k.PublicKey
  seenSequence : Option Nat
  remoteWhitelist : Option (Whitelist k)

/-- A child that `resolve_branch` spawns a task for. -/
structure Child (k : EnrCrates) where
  host : Text
  subdomain : Base32Hash
  kind : BranchKind k

variable {k : EnrCrates}

/-- `domain_is_allowed`. -/
def domainIsAllowed (whitelist : Option (Whitelist k)) (domain : Text) (publicKey : k.PublicKey) : Bool :=
  match whitelist with
  | none => true
  | some whitelist => match whitelist domain with
    | none => false
    | some pk => k.encode pk = k.encode publicKey

/-- The name of a child. -/
def Child.fqdn (c : Child k) : Text := c.subdomain.text ++ '.' :: c.host

/-- The link subtree of the root of a tree. -/
def Tree.linkChild (t : Tree k) (r : UnsignedRoot) : Child k := ⟨t.host, r.linkRoot, .link t.remoteWhitelist⟩

/-- The ENR subtree of the root of a tree. -/
def Tree.enrChild (t : Tree k) (r : UnsignedRoot) : Child k := ⟨t.host, r.enrRoot, .enr⟩

/-- What a stream does with the record of its tree. -/
inductive Tree.Found (k : EnrCrates) where
  | nothing
  | failed (e : DnsError k)
  | root (base : UnsignedRoot)

/-- The part of `resolve_tree` before the link subtree. -/
def Tree.find (backend : Backend) (t : Tree k) : Tree.Found k :=
  match backend t.host with
  | .error e => .failed (.backend e)
  | .ok none => .nothing
  | .ok (some text) => match DnsRecord.fromStr k text with
    | .error e => .failed (.record e)
    | .ok (.root record) =>
      if t.publicKey.any (! record.verify k ·) then .failed .publicKeyMismatch
      else if t.seenSequence.any (record.base.sequence ≤ ·) then .nothing
      else .root record.base
    | .ok record => .failed (.expectedRoot record)

/-- What a task does with the record of its child. -/
inductive Child.Found (k : EnrCrates) where
  | nothing
  | failed (e : DnsError k)
  | enr (record : k.Enr)
  | branch (children : List Base32Hash)
  | tree (t : Tree k)

/-- The part of a task of `resolve_branch` before it sends or forwards anything. -/
def Child.find (backend : Backend) (c : Child k) : Child.Found k :=
  match backend c.fqdn with
  | .error e => .failed (.backend e)
  | .ok none => .nothing
  | .ok (some text) => match DnsRecord.fromStr k text with
    | .error e => .failed (.record e)
    | .ok (.branch children) => .branch children
    | .ok (.link publicKey domain) => match c.kind with
      | .link remoteWhitelist =>
        if domainIsAllowed remoteWhitelist domain publicKey then
          .tree ⟨domain, some publicKey, none, remoteWhitelist⟩
        else .nothing
      | .enr => .failed (.unexpectedLink c.subdomain)
    | .ok (.enr record) => match c.kind with
      | .enr => .enr record
      | .link _ => .failed (.unexpectedEnr c.subdomain)
    | .ok (.root _) => .failed (.unexpectedRoot c.subdomain)

/-! ## Streams, tasks and channels -/

/-- What goes over a channel. -/
abbrev Item (k : EnrCrates) : Type := Except (DnsError k) k.Enr

/-- A channel: what is in its only place, and whether its receiver is gone. -/
structure Channel (k : EnrCrates) where
  buffer : Option (Item k)
  closed : Bool

/-- Where the stream of `resolve_tree` stands. -/
inductive TreeStream (k : EnrCrates) where
  | start (t : Tree k)
  /-- It receives the link subtree of a root. -/
  | link (channel : Nat) (t : Tree k) (base : UnsignedRoot)
  /-- It receives the ENR subtree. -/
  | enr (channel : Nat)
  /-- It has failed, with the channel it was receiving from. -/
  | failed (channel : Option Nat)

/-- A stream that a task forwards. -/
inductive Source (k : EnrCrates) where
  | branch (channel : Nat)
  | tree (stream : TreeStream k)

/-- Where a task stands. -/
inductive Progress (k : EnrCrates) where
  | fetching
  | forwarding (source : Source k)
  /-- It sends an item, and then goes on with the source. -/
  | sending (item : Item k) (source : Option (Source k))
  | finished

/-- The task of a child, which sends over `out`. -/
structure Task (k : EnrCrates) where
  child : Child k
  out : Nat
  progress : Progress k

/-- A record that is asked for. -/
inductive Visit (k : EnrCrates) where
  | tree (t : Tree k)
  | child (c : Child k)

/-- A query: the channels and the tasks so far, and the records that were asked for. The stream is `none` after its end,
and what it has yielded is kept. -/
structure Query (k : EnrCrates) where
  channels : List (Channel k)
  tasks : List (Task k)
  visited : List (Visit k)
  stream : Option (TreeStream k)
  yielded : List (Item k)

/-- `Resolver::query`: a stream that has not been polled yet. -/
def Query.start (t : Tree k) : Query k := ⟨[], [], [], some (.start t), []⟩

/-- `Resolver::query_tree`, with the sequence and the whitelist of the resolver. -/
def Query.ofLink (seenSequence : Option Nat) (remoteWhitelist : Option (Whitelist k)) (treeLink : Text) :
    Except (DnsError k) (Query k) :=
  match DnsRecord.fromStr k treeLink with
  | .error e => .error (.record e)
  | .ok (.link publicKey domain) => .ok (.start ⟨domain, some publicKey, seenSequence, remoteWhitelist⟩)
  | .ok _ => .error .unexpectedRecordType

/-- Whether a task still holds its sender. -/
def Task.sends (t : Task k) (c : Nat) : Bool :=
  t.out = c && match t.progress with
    | .finished => false
    | _ => true

namespace Query

/-- Ask for a record. -/
def visit (s : Query k) (v : Visit k) : Query k := { s with visited := s.visited ++ [v] }

def setTask (s : Query k) (i : Nat) (t : Task k) : Query k := { s with tasks := s.tasks.set i t }

/-- `resolve_branch`: a task for every child, and the channel they send over. -/
def resolveBranch (s : Query k) (children : List (Child k)) : Query k × Nat :=
  ({ s with channels := s.channels ++ [⟨none, false⟩],
            tasks := s.tasks ++ children.map fun c => ⟨c, s.channels.length, .fetching⟩ }, s.channels.length)

/-- `Receiver::recv`: the next item, or the end when no task sends any more. -/
def recv (s : Query k) (c : Nat) : Option (Query k × Option (Item k)) :=
  match s.channels[c]? with
  | some ⟨some item, closed⟩ => some ({ s with channels := s.channels.set c ⟨none, closed⟩ }, some item)
  | _ => if s.tasks.any (·.sends c) then none else some (s, none)

/-- `Sender::send`, which does nothing once the receiver is gone. -/
def send (s : Query k) (c : Nat) (item : Item k) : Option (Query k) :=
  match s.channels[c]? with
  | some ⟨none, false⟩ => some { s with channels := s.channels.set c ⟨some item, false⟩ }
  | some ⟨some _, false⟩ => none
  | _ => some s

/-- Drop the receiver of a channel. -/
def close (s : Query k) (c : Nat) : Query k := { s with channels := s.channels.set c ⟨none, true⟩ }

end Query

/-- What a stream answers when it is polled. -/
inductive Poll (α : Type) (k : EnrCrates) where
  | running (stream : α)
  | ready (item : Item k) (stream : α)
  | ended

/-- A step of the stream of `resolve_tree`. -/
def TreeStream.poll (backend : Backend) (s : Query k) : TreeStream k → Option (Query k × Poll (TreeStream k) k)
  | .start t =>
    let s := s.visit (.tree t)
    match t.find backend with
    | .nothing => some (s, .ended)
    | .failed e => some (s, .ready (.error e) (.failed none))
    | .root base =>
      let (s, c) := s.resolveBranch [t.linkChild base]
      some (s, .running (.link c t base))
  | .link c t base => do
    let (s, received) ← s.recv c
    match received with
    | some (.ok record) => some (s, .ready (.ok record) (.link c t base))
    | some (.error e) => some (s, .ready (.error e) (.failed (some c)))
    | none =>
      let (s, c) := s.resolveBranch [t.enrChild base]
      some (s, .running (.enr c))
  | .enr c => do
    let (s, received) ← s.recv c
    match received with
    | some (.ok record) => some (s, .ready (.ok record) (.enr c))
    | some (.error e) => some (s, .ready (.error e) (.failed (some c)))
    | none => some (s, .ended)
  | .failed none => some (s, .ended)
  | .failed (some c) => some (s.close c, .ended)

/-- A step of a stream that a task forwards. -/
def Source.poll (backend : Backend) (s : Query k) : Source k → Option (Query k × Poll (Source k) k)
  | .branch c => do
    let (s, received) ← s.recv c
    match received with
    | some item => some (s, .ready item (.branch c))
    | none => some (s, .ended)
  | .tree stream => do
    let (s, answer) ← stream.poll backend s
    match answer with
    | .running stream => some (s, .running (.tree stream))
    | .ready item stream => some (s, .ready item (.tree stream))
    | .ended => some (s, .ended)

/-- The channel that a stream receives from. -/
def TreeStream.channel : TreeStream k → Option Nat
  | .start _ => none
  | .link c _ _ => some c
  | .enr c => some c
  | .failed c => c

def Source.channel : Source k → Option Nat
  | .branch c => some c
  | .tree stream => stream.channel

namespace Query

/-- Drop a stream. -/
def dropSource (s : Query k) (source : Source k) : Query k := source.channel.elim s s.close

/-- A step of a task. -/
def taskStep (backend : Backend) (s : Query k) (i : Nat) (t : Task k) : Option (Query k) :=
  match t.progress with
  | .fetching =>
    let s := s.visit (.child t.child)
    match t.child.find backend with
    | .nothing => some (s.setTask i { t with progress := .finished })
    | .failed e => some (s.setTask i { t with progress := .sending (.error e) none })
    | .enr record => some (s.setTask i { t with progress := .sending (.ok record) none })
    | .branch children =>
      let (s, c) := s.resolveBranch (children.map fun h => { t.child with subdomain := h })
      some (s.setTask i { t with progress := .forwarding (.branch c) })
    | .tree t' => some (s.setTask i { t with progress := .forwarding (.tree (.start t')) })
  | .forwarding source => do
    let (s, answer) ← source.poll backend s
    match answer with
    | .running source => some (s.setTask i { t with progress := .forwarding source })
    | .ready (.ok record) source => some (s.setTask i { t with progress := .sending (.ok record) (some source) })
    | .ready (.error e) source =>
      some ((s.dropSource source).setTask i { t with progress := .sending (.error e) none })
    | .ended => some (s.setTask i { t with progress := .finished })
  | .sending item source => do
    let s ← s.send t.out item
    match source with
    | some source => some (s.setTask i { t with progress := .forwarding source })
    | none => some (s.setTask i { t with progress := .finished })
  | .finished => none

/-- A step of the stream of the query, which yields what it has ready. -/
def streamStep (backend : Backend) (s : Query k) (stream : TreeStream k) : Option (Query k) := do
  let (s, answer) ← stream.poll backend s
  match answer with
  | .running stream => some { s with stream := some stream }
  | .ready item stream => some { s with stream := some stream, yielded := s.yielded ++ [item] }
  | .ended => some { s with stream := none }

end Query

/-- Which part of a query takes a step. -/
inductive Event where
  | stream
  | task (i : Nat)

/-- A step of a query. -/
def Query.step (backend : Backend) (s : Query k) : Event → Option (Query k)
  | .stream => s.stream.bind (s.streamStep backend)
  | .task i => s.tasks[i]?.bind (s.taskStep backend i)

end Dnsdisc

end EthereumSentry

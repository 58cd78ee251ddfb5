import Mathlib
import ArchHub.Lib.Check
import ArchHub.Lib.Json
import ArchHub.Lib.Newest
import ArchHub.Lib.Tally

/-!
# The tables of a conversation history

What an append may say (`Draft`), what is recorded of it (`Message`), and the
two texts of a message: the one it is read as, by which pages and batches are
measured, and the canonical one, by which retention knows it again.

A `Conversation` is what the tables of the history hold of one conversation:
its messages with their recipient and count indexes, the tombstones of removed
messages and its retention row.  Every query of the source names one
conversation, so a history is a dictionary of them (`Store`), with the two
facts of its schema that the operations ask for.

An operation is a transaction.  It comes to the new tables and an answer, or it
raises and is rolled back.
-/

namespace ArchHub.History

open Lib

/-- What is asked of the language and its libraries. -/
structure Host where
  /-- The hexadecimal SHA-256 of a text. -/
  sha256 : String → String
  /-- Whether a text is a timestamp with a timezone. -/
  isoTimestamp : String → Bool

/-! ## Fields -/

/-- `_text`. -/
def text (value label : String) (maximum : ℕ) : Except String Unit :=
  Check.require (decide (value ≠ "" ∧ value.utf8ByteSize ≤ maximum ∧ '\x00' ∉ value.toList))
    ("invalid " ++ label)

/-- `_references`. -/
def references (values : List String) (label : String) : Except String Unit := do
  Check.require (decide (values.length ≤ 64)) ("invalid " ++ label)
  Check.each (fun value => text value label 512) values
  Check.require (decide values.Nodup) ("duplicate " ++ label)

/-- `_MAX_BODY`. -/
def maxBody : ℕ := 65536

/-- The fields of a message to append, after `validate_message_fields`. -/
structure Draft where
  id : Option String
  author : String
  content : String
  category : String
  recipients : List String
  refs : List String
  evidence : List String
  replyTo : Option String
  createdAt : Option String
  idempotencyKey : String
deriving DecidableEq

/-- `validate_message_fields`. -/
def validateMessageFields (host : Host) (conversation : String) (d : Draft) : Except String Unit := do
  text conversation "conversation" 512
  text d.author "author" 512
  text d.content "content" maxBody
  text d.category "category" 512
  text d.idempotencyKey "idempotency key" 512
  references d.recipients "recipients"
  references d.refs "references"
  references d.evidence "evidence"
  Check.each (fun target => text target "reply target" 512) d.replyTo.toList
  Check.each (fun id => text id "message id" 512) d.id.toList
  Check.each (fun stamp => do
    text stamp "timestamp" 64
    Check.require (host.isoTimestamp stamp) "invalid timestamp") d.createdAt.toList

/-! ## Messages -/

/-- A recorded message. -/
structure Message where
  id : String
  sequence : ℕ
  author : String
  content : String
  category : String
  recipients : List String
  refs : List String
  evidence : List String
  replyTo : Option String
  createdAt : String
  idempotencyKey : String
deriving DecidableEq

namespace Message

/-- The fields of a recorded message, to be validated again. -/
def draft (m : Message) : Draft :=
  ⟨some m.id, m.author, m.content, m.category, m.recipients, m.refs, m.evidence, m.replyTo,
    some m.createdAt, m.idempotencyKey⟩

/-- The message as a caller gets it, `_message`. -/
def json (conversation : String) (m : Message) : Json :=
  .obj [("id", .str m.id), ("conversation_id", .str conversation), ("sequence", .num m.sequence),
    ("author", .str m.author), ("content", .str m.content), ("category", .str m.category),
    ("reply_to", .ofOption m.replyTo), ("created_at", .str m.createdAt),
    ("idempotency_key", .str m.idempotencyKey), ("recipients", .strings m.recipients),
    ("refs", .strings m.refs), ("evidence", .strings m.evidence)]

/-- The size of a message in a page or a batch. -/
def bytes (conversation : String) (m : Message) : ℕ := (m.json conversation).bytes

/-- The canonical content, with sorted keys. -/
def canonical (conversation : String) (m : Message) : Json :=
  .obj [("author", .str m.author), ("category", .str m.category), ("content", .str m.content),
    ("conversation_id", .str conversation), ("created_at", .str m.createdAt),
    ("evidence", .strings m.evidence), ("id", .str m.id),
    ("idempotency_key", .str m.idempotencyKey), ("recipients", .strings m.recipients),
    ("refs", .strings m.refs), ("reply_to", .ofOption m.replyTo), ("sequence", .num m.sequence)]

/-- The canonical text. -/
def canonicalText (conversation : String) (m : Message) : String := (m.canonical conversation).text

/-- `message_content_digest`. -/
def contentDigest (host : Host) (conversation : String) (m : Message) : String :=
  host.sha256 (m.canonicalText conversation)

/-- **The canonical text names the message**: every field is in it. -/
theorem eq_of_canonicalText {conversation : String} {m n : Message}
    (h : m.canonicalText conversation = n.canonicalText conversation) : m = n := by
  have hcanon : m.canonical conversation = n.canonical conversation := Json.text_injective h
  unfold canonical at hcanon
  injection hcanon with hfields
  simp only [List.cons.injEq, Prod.mk.injEq, true_and, and_true, Json.str.injEq,
    Json.num.injEq, Nat.cast_inj] at hfields
  obtain ⟨hauthor, hcategory, hcontent, hcreated, hevidence, hid, hkey, hrecipients, hrefs,
    hreply, hsequence⟩ := hfields
  have hevidence := Json.strings_injective hevidence
  have hrecipients := Json.strings_injective hrecipients
  have hrefs := Json.strings_injective hrefs
  have hreply := Json.ofOption_injective hreply
  cases m
  cases n
  simp_all

end Message

/-- `_identity_digest`. -/
def identityDigest (host : Host) (value : String) : String := host.sha256 value

/-- Whether a draft asks again for a recorded message: the fields it names are
the recorded ones. -/
def Draft.repeats (d : Draft) (m : Message) : Bool :=
  decide (d.author = m.author ∧ d.content = m.content ∧ d.category = m.category ∧
    d.recipients = m.recipients ∧ d.refs = m.refs ∧ d.evidence = m.evidence ∧
    d.replyTo = m.replyTo ∧ (∀ id ∈ d.id, id = m.id) ∧ ∀ stamp ∈ d.createdAt, stamp = m.createdAt)

end ArchHub.History

namespace ArchHub.History

open Lib

/-! ## Tables -/

/-- A row of `messages`. -/
structure Row where
  message : Message
  /-- The column `public`. -/
  isPublic : Bool
deriving DecidableEq

/-- A row of `recipients`. -/
structure Recipient where
  messageId : String
  principal : String
  sequence : ℕ
  category : String
deriving DecidableEq

/-- Whose messages a counter counts: an `audience_kind` with its principal. -/
inductive Audience
  | all
  | everyone
  | principal (name : String)
deriving DecidableEq

/-- A row of `message_tombstones`. -/
structure Tombstone where
  sequence : ℕ
  messageDigest : String
  idempotencyDigest : String
  contentDigest : Option String
deriving DecidableEq

/-- `activity_basis`. -/
inductive Basis
  | unknown
  | ownerObserved
  | archiveObservation
deriving DecidableEq

/-- A row of `conversation_retention`. -/
structure Retention where
  lastActivityAt : Option ℚ
  activityBasis : Basis
  activityRevision : ℕ
  archiveRevision : ℕ
  archivedAt : Option ℚ
  contentGeneration : ℕ
  purgedMessages : ℕ
deriving DecidableEq

/-- The retention of a conversation that has no row. -/
def Retention.absent : Retention := ⟨none, .unknown, 0, 0, none, 0, 0⟩

/-- The tables of one conversation. -/
structure Conversation where
  lastSequence : ℕ
  /-- `messages`, in the order of insertion. -/
  rows : List Row
  recipients : List Recipient
  /-- `category_counts`. -/
  counts : Dict (Audience × String) ℕ
  tombstones : List Tombstone
  retention : Option Retention
deriving DecidableEq

/-- A conversation after `ensure_conversation`. -/
def Conversation.new : Conversation := ⟨0, [], [], .empty, [], none⟩

/-- A history. -/
structure Store where
  conversations : Dict String Conversation
  /-- `_retention_active`. -/
  retention : Bool
  /-- `_has_content_digests`. -/
  contentDigests : Bool

namespace Conversation

/-! ## Lookups -/

/-- The row of an idempotency key. -/
def byKey (c : Conversation) (key : String) : Option Row :=
  c.rows.find? fun r => r.message.idempotencyKey = key

/-- The row of a message id. -/
def byId (c : Conversation) (id : String) : Option Row := c.rows.find? fun r => r.message.id = id

/-- The row of a sequence number. -/
def bySequence (c : Conversation) (n : ℕ) : Option Row :=
  c.rows.find? fun r => r.message.sequence = n

/-- The tombstone of a sequence number. -/
def tombstoneOf (c : Conversation) (n : ℕ) : Option Tombstone :=
  c.tombstones.find? fun t => t.sequence = n

/-- `_audience`: the rows a principal may read. -/
def audible (c : Conversation) (principal : String) (readAll : Bool) (r : Row) : Bool :=
  readAll || r.isPublic || decide (r.message.author = principal) ||
    c.recipients.any fun e => decide (e.messageId = r.message.id ∧ e.principal = principal)

/-! ## Rows and their indexes -/

/-- The counters a message is counted in. -/
def audiences (m : Message) : List Audience :=
  .all :: if m.recipients = [] then [.everyone]
    else (m.recipients ++ [m.author]).dedup.map .principal

/-- The counters of a message, by category. -/
def countKeys (m : Message) : List (Audience × String) :=
  (audiences m).map fun audience => (audience, m.category)

/-- The rows of `recipients` a message has. -/
def recipientRows (m : Message) : List Recipient :=
  m.recipients.map fun principal => ⟨m.id, principal, m.sequence, m.category⟩

/-- `_insert_indexed`. -/
def insertIndexed (c : Conversation) (m : Message) : Except String Conversation := do
  Check.require (c.rows.all fun r => decide (r.message.id ≠ m.id ∧
    r.message.sequence ≠ m.sequence ∧ r.message.idempotencyKey ≠ m.idempotencyKey))
    "UNIQUE constraint failed: messages"
  .ok { c with
    rows := c.rows ++ [⟨m, m.recipients.isEmpty⟩]
    recipients := c.recipients ++ recipientRows m
    counts := (countKeys m).foldl Tally.up c.counts }

/-- One less in every counter of a message, whose row is deleted at nothing. -/
def uncount :
    List (Audience × String) → Dict (Audience × String) ℕ →
      Except String (Dict (Audience × String) ℕ)
  | [], counts => .ok counts
  | key :: keys, counts =>
      match Tally.down counts key with
      | some counts => uncount keys counts
      | none => .error "conversation category counts are inconsistent"

/-- What a purge does with one message of its batch. -/
def removeIndexed (host : Host) (conversation : String) (c : Conversation) (m : Message) :
    Except String Conversation := do
  Check.require (c.rows.all fun r => decide (r.message.replyTo ≠ some m.id))
    "purge would orphan a retained reply"
  let tombstone : Tombstone := ⟨m.sequence, identityDigest host m.id,
    identityDigest host m.idempotencyKey, some (m.contentDigest host conversation)⟩
  Check.require (c.tombstones.all fun t => decide (t.sequence ≠ tombstone.sequence ∧
    t.messageDigest ≠ tombstone.messageDigest ∧
    t.idempotencyDigest ≠ tombstone.idempotencyDigest))
    "UNIQUE constraint failed: message_tombstones"
  let counts ← uncount (countKeys m) c.counts
  .ok { c with
    tombstones := c.tombstones ++ [tombstone]
    counts := counts
    recipients := c.recipients.filter fun e => e.messageId ≠ m.id
    rows := c.rows.filter fun r => r.message.id ≠ m.id }

/-! ## Retention rows -/

/-- `253402300799`, the last second a timestamp may name. -/
def lastInstant : ℚ := 253402300799

/-- A timestamp of retention. -/
def instant (t : ℚ) : Bool := decide (0 ≤ t ∧ t ≤ lastInstant)

/-- `_retention_now`. -/
def retentionNow (clock : ℚ) : Except String ℚ := do
  Check.require (instant clock) "owner retention clock is invalid"
  .ok clock

/-- Whether a retention row is one the history could have written. -/
def admitted (r : Retention) : Bool :=
  (r.lastActivityAt.toList ++ r.archivedAt.toList).all instant &&
    decide ((r.lastActivityAt = none ↔ r.activityBasis = .unknown) ∧
      (r.archivedAt ≠ none → r.lastActivityAt ≠ none))

/-- `_retention_status`. -/
def retentionStatus (enabled : Bool) (c : Conversation) : Except String Retention := do
  let status := if enabled then c.retention.getD .absent else .absent
  Check.require (admitted status) "invalid conversation retention activity"
  .ok status

/-- `_retention_status` of an operation that requires retention. -/
def requiredStatus (enabled : Bool) (c : Conversation) : Except String Retention := do
  Check.require enabled "conversation retention has not been initialized"
  c.retentionStatus enabled

/-- `_record_activity`. -/
def recordActivityRow (enabled : Bool) (clock : ℚ) (c : Conversation) :
    Except String Conversation := do
  let status ← c.requiredStatus enabled
  let now ← retentionNow clock
  .ok { c with retention := some { status with
    lastActivityAt := some (max now (status.lastActivityAt.getD 0))
    activityBasis := .ownerObserved
    activityRevision := status.activityRevision + 1
    archiveRevision := status.archiveRevision + if status.archivedAt.isSome then 1 else 0
    archivedAt := none } }

/-! ## Appending -/

/-- Who a reply is written for: `reply_principal` and `reply_read_all`. -/
structure Access where
  principal : String
  readAll : Bool

/-- Everything an append is called with. -/
structure Append where
  draft : Draft
  access : Option Access
  requireNew : Bool
  /-- `uuid4().hex`, where the caller names no id. -/
  fresh : String
  /-- `datetime.now`, where the caller names no time. -/
  stamp : String
  /-- What the retention clock reads. -/
  clock : ℚ
  /-- What the commit guard raises. -/
  guard : Option String

/-- A guard. -/
def guarded (raises : Option String) : Except String Unit :=
  match raises with
  | none => .ok ()
  | some e => .error e

/-- Whether the message a draft replies to is one its writer may read. -/
def replyAudible (c : Conversation) (replyTo : Option String) (access : Option Access) : Bool :=
  match replyTo, access with
  | some target, some access => c.rows.any fun r =>
      decide (r.message.id = target) && c.audible access.principal access.readAll r
  | _, _ => true

/-- `record_activity`. -/
def recordActivity (enabled : Bool) (clock : ℚ) (guard : Option String) (c : Conversation) :
    Except String Conversation := do
  let c ← c.recordActivityRow enabled clock
  guarded guard
  .ok c

/-- `_append_in_transaction`. -/
def appendInTransaction (host : Host) (enabled : Bool) (a : Append) (c : Conversation) :
    Except String (Conversation × Message) := do
  let d := a.draft
  Check.require (c.replyAudible d.replyTo a.access)
    "reply target is not visible in this conversation"
  match c.byKey d.idempotencyKey with
  | some prior => do
      Check.require (d.repeats prior.message) "idempotency conflict"
      .ok (c, prior.message)
  | none => do
      let identifier := d.id.getD a.fresh
      Check.onlyIf enabled (Check.require
        (c.tombstones.all fun t => decide (t.messageDigest ≠ identityDigest host identifier ∧
          t.idempotencyDigest ≠ identityDigest host d.idempotencyKey))
        "message identity was removed by conversation retention")
      Check.require (c.byId identifier).isNone "message id conflict"
      Check.each (fun target => Check.require (c.byId target).isSome
        "reply target is not in this conversation") d.replyTo.toList
      let message : Message := ⟨identifier, c.lastSequence + 1, d.author, d.content, d.category,
        d.recipients, d.refs, d.evidence, d.replyTo, d.createdAt.getD a.stamp, d.idempotencyKey⟩
      let inserted ← c.insertIndexed message
      .ok ({ inserted with lastSequence := c.lastSequence + 1 }, message)

/-- `append`: the message, and whether it is a new one. -/
def append (host : Host) (enabled : Bool) (conversation : String) (a : Append)
    (c : Conversation) : Except String (Conversation × Message × Bool) := do
  validateMessageFields host conversation a.draft
  Check.each (fun access : Access => text access.principal "principal" 512) a.access.toList
  let (changed, message) ← c.appendInTransaction host enabled a
  let created := decide (c.lastSequence < message.sequence)
  Check.require (created || !a.requireNew) "idempotency conflict"
  let changed ← (if created && enabled then changed.recordActivityRow enabled a.clock
    else .ok changed : Except String Conversation)
  guarded a.guard
  .ok (changed, message, created)

/-! ## Retention -/

/-- The state an owner saw when it asked for a retention step. -/
structure Seen where
  activityRevision : ℕ
  archiveRevision : ℕ
  head : ℕ
  contentGeneration : ℕ

/-- What every retention step is called with. -/
structure Step where
  /-- Whether the owner holds the conversation protected. -/
  shielded : Bool
  seen : Seen
  /-- Whether no page of the conversation is open, unsaved or unknown. -/
  pagesClear : Bool
  clock : ℚ
  /-- What the owner's guard raises at the start, and before the commit. -/
  entry : Option String
  exit : Option String

/-- `_retention_guard`. -/
def retentionGuard (s : Step) : Except String Unit :=
  Check.require (!s.shielded)
    "retention requires explicit owner protection clearance and commit guard"

/-- The owner's guard, `_retention_cas` and `_require_pages_clear`. -/
def retentionCas (enabled : Bool) (s : Step) (c : Conversation) : Except String Retention := do
  guarded s.entry
  let status ← c.requiredStatus enabled
  Check.require (decide (status.activityRevision = s.seen.activityRevision ∧
      status.archiveRevision = s.seen.archiveRevision ∧ c.lastSequence = s.seen.head ∧
      status.contentGeneration = s.seen.contentGeneration))
    "conversation retention state changed; refresh"
  Check.require s.pagesClear "conversation has open, unsaved or unknown page protection"
  .ok status

/-- `archive`. -/
def archive (enabled : Bool) (s : Step) (c : Conversation) :
    Except String Conversation := do
  retentionGuard s
  let status ← c.retentionCas enabled s
  if status.archivedAt.isSome then do
    guarded s.exit
    .ok c
  else do
    let now ← retentionNow s.clock
    let observed := if status.lastActivityAt.isSome then status
      else { status with
        lastActivityAt := some now
        activityBasis := .archiveObservation
        activityRevision := status.activityRevision + 1 }
    guarded s.exit
    .ok { c with retention := some { observed with
      archivedAt := some now
      archiveRevision := status.archiveRevision + 1 } }

/-- `_RETENTION_SECONDS`. -/
def retentionSeconds : ℚ := 20 * 86400

/-- The rows of a purge, newest first. -/
def newestRows (c : Conversation) (limit : ℕ) : List Row :=
  Newest.newest (fun r => r.message.sequence) limit c.rows

/-- The batch of a purge: the newest messages that fit in the byte budget. -/
def batchOf (host : Host) (conversation : String) (last maxBytes : ℕ) :
    List Row → List Message → ℕ → Except String (List Message × ℕ)
  | [], batch, removed => .ok (batch, removed)
  | r :: rows, batch, removed => do
      Check.require (decide (1 ≤ r.message.sequence ∧ r.message.sequence ≤ last))
        "invalid message sequence"
      validateMessageFields host conversation r.message.draft
      Check.require (r.isPublic == r.message.recipients.isEmpty) "invalid retained message audience"
      let size := r.message.bytes conversation
      if maxBytes < removed + size then
        if batch = [] then .error "message exceeds the purge byte budget" else .ok (batch, removed)
      else batchOf host conversation last maxBytes rows (batch ++ [r.message]) (removed + size)

/-- `removeIndexed` for every message of a batch. -/
def removeAll (host : Host) (conversation : String) :
    List Message → Conversation → Except String Conversation
  | [], c => .ok c
  | m :: batch, c => do
      let c ← c.removeIndexed host conversation m
      removeAll host conversation batch c

/-- Everything a purge is called with. -/
structure Purge extends Step where
  maxMessages : ℕ
  maxBytes : ℕ
  /-- What the export raises. -/
  exported : Option String

/-- The part of `purge_archived` before anything is exported: the batch. -/
def purgeBatch (host : Host) (enabled : Bool) (conversation : String) (p : Purge)
    (c : Conversation) : Except String (List Message × ℕ) := do
  retentionGuard p.toStep
  Check.require (decide (1 ≤ p.maxMessages ∧ p.maxMessages ≤ 100)) "invalid purge message limit"
  Check.require (decide (1 ≤ p.maxBytes ∧ p.maxBytes ≤ 1024 * 1024)) "invalid purge byte limit"
  let status ← c.retentionCas enabled p.toStep
  let now ← retentionNow p.clock
  match status.archivedAt, status.lastActivityAt with
  | some archived, some active => do
      Check.require (decide (retentionSeconds ≤ now - active ∧ archived ≤ now))
        "conversation has not been inactive for 20 days"
      let (batch, removed) ←
        batchOf host conversation c.lastSequence p.maxBytes (c.newestRows p.maxMessages) [] 0
      if batch ≠ [] then guarded p.exported
      .ok (batch, removed)
  | _, _ => .error "conversation is not archived with known owner activity"

/-- What a purge answers. -/
structure Purged where
  purged : ℕ
  purgedBytes : ℕ
  hasMore : Bool

/-- `purge_archived`. -/
def purgeArchived (host : Host) (enabled : Bool) (conversation : String) (p : Purge)
    (c : Conversation) : Except String (Conversation × Purged) := do
  let status ← c.retentionCas enabled p.toStep
  let (batch, removed) ← c.purgeBatch host enabled conversation p
  let c ← removeAll host conversation batch c
  let c := if batch = [] then c
    else { c with retention := some { status with
      contentGeneration := status.contentGeneration + 1
      purgedMessages := status.purgedMessages + batch.length } }
  guarded p.exit
  .ok (c, ⟨batch.length, removed, !c.rows.isEmpty⟩)

/-- The messages the archive of a purge has accepted, whether or not the purge
is committed afterwards. -/
def accepted (host : Host) (enabled : Bool) (conversation : String) (p : Purge)
    (c : Conversation) : List Message :=
  match c.purgeBatch host enabled conversation p with
  | .ok (batch, _) => batch
  | .error _ => []

/-! ## Restoring -/

/-- Restoring one archived message: nothing where it is still there. -/
def restoreOne (host : Host) (conversation : String) (digests : Bool) (c : Conversation)
    (m : Message) : Except String (Conversation × Bool) := do
  validateMessageFields host conversation m.draft
  Check.require (decide (1 ≤ m.sequence ∧ m.sequence ≤ c.lastSequence)) "invalid message sequence"
  match c.bySequence m.sequence with
  | some present => do
      Check.require (decide (present.message.id = m.id))
        "archive record conflicts with a retained message"
      .ok (c, false)
  | none => do
      let tombstone := if digests then c.tombstoneOf m.sequence else none
      Check.require (tombstone.any fun t => decide (t.messageDigest = identityDigest host m.id ∧
          t.idempotencyDigest = identityDigest host m.idempotencyKey))
        "archive record does not match the message retention removed"
      Check.require (tombstone.any fun t =>
          decide (t.contentDigest = some (m.contentDigest host conversation)))
        "archive record content differs from the message retention removed"
      Check.each (fun target => Check.require (c.byId target).isSome
        "restore needs the replied-to message first") m.replyTo.toList
      let c ← ({ c with tombstones :=
        c.tombstones.filter fun t => t.sequence ≠ m.sequence } : Conversation).insertIndexed m
      .ok (c, true)

/-- Restoring a batch, and how many of it were restored. -/
def restoreAll (host : Host) (conversation : String) (digests : Bool) :
    List Message → Conversation → Except String (Conversation × ℕ)
  | [], c => .ok (c, 0)
  | m :: batch, c => do
      let (c, restored) ← restoreOne host conversation digests c m
      let (c, count) ← restoreAll host conversation digests batch c
      .ok (c, (if restored then 1 else 0) + count)

/-- Everything a restore is called with. -/
structure Restore where
  messages : List Message
  maxMessages : ℕ
  clock : ℚ
  entry : Option String
  exit : Option String

/-- The batch of a restore, oldest first. -/
def Restore.batch (r : Restore) : List Message :=
  r.messages.insertionSort fun m n => m.sequence ≤ n.sequence

/-- `restore_archived`. -/
def restoreArchived (host : Host) (enabled digests : Bool) (conversation : String) (r : Restore)
    (c : Conversation) : Except String Conversation := do
  Check.require (decide (1 ≤ r.maxMessages ∧ r.maxMessages ≤ 500)) "invalid restore message limit"
  Check.require (decide (r.messages.length ≤ r.maxMessages))
    "restore batch is invalid or exceeds its limit"
  guarded r.entry
  let status ← c.requiredStatus enabled
  let (c, restored) ← restoreAll host conversation digests r.batch c
  let c := if restored = 0 then c
    else { c with retention := some { status with
      contentGeneration := status.contentGeneration + 1
      purgedMessages := status.purgedMessages - restored } }
  let c ← c.recordActivityRow enabled r.clock
  guarded r.exit
  .ok c

end Conversation

end ArchHub.History

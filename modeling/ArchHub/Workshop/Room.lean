import Mathlib
import ArchHub.Lib.Transition
import ArchHub.Conversation.Counting

/-!
# The room of the Workshop

The room is a conversation of its own file.  Its messages expire: a second deletion path
beside the purge of the history, which edits the rows, the counters and the search index by
itself.

* `Room`: the tables of the room.
* `Room.append`: the append of the history, with the row number it takes.
* `Room.retain`: `_retain_messages`.
* `Room.countsFor`, `Room.totalAt`: what a reader is told of the counters.

The counters are integers here: nothing keeps the expiry from taking one below nothing.
Retention of the history is never enabled for this file.
-/

namespace ArchHub.Workshop

open Lib History

/-- `ROOM`. -/
def roomName : String := "app:workshop"

/-- The tables of the room. -/
structure Room where
  lastSequence : ℕ
  /-- `messages`, each with its `rowid`. -/
  rows : List (ℕ × Row)
  recipients : List Recipient
  /-- `category_counts`. -/
  counts : Dict (Audience × String) ℤ
  /-- `message_search`. -/
  search : List (ℕ × String)
  /-- `workshop_waiting`. -/
  waiting : List String

/-- A new room. -/
def Room.new : Room := ⟨0, [], [], .empty, [], []⟩

namespace Room

/-- The rows without their numbers, as the operations of the history read them. -/
def conversation (room : Room) : Conversation :=
  ⟨room.lastSequence, room.rows.map Prod.snd, room.recipients,
    room.counts.map fun _ n => n.toNat, [], none⟩

/-! ## Appending -/

/-- The number of the next row. -/
def nextRow (room : Room) : ℕ := (room.rows.map Prod.fst).foldl max 0 + 1

/-- `_insert_indexed`, and the new head. -/
def insertIndexed (room : Room) (m : Message) : Room :=
  { room with
    lastSequence := room.lastSequence + 1
    rows := room.rows ++ [(room.nextRow, ⟨m, m.recipients.isEmpty⟩)]
    search := room.search ++ [(room.nextRow, m.content)]
    recipients := room.recipients ++ Conversation.recipientRows m
    counts := (Conversation.countKeys m).foldl Tally.countUp room.counts }

/-- `append`: a message that is recorded under its key is answered again. -/
def append (host : Host) (a : Conversation.Append) (room : Room) :
    Except String (Room × Message × Bool) := do
  let (_, message, created) ← room.conversation.append host false roomName a
  match room.conversation.byKey a.draft.idempotencyKey with
  | some _ => .ok (room, message, created)
  | none => .ok (room.insertIndexed message, message, created)

/-! ## Expiry -/

/-- The rows that expire: the newest 128 of those before the cutoff that wait for nobody. -/
def due (room : Room) (cutoff : String) : List (ℕ × Row) :=
  Newest.newest (fun r => r.2.message.sequence) 128 (room.rows.filter fun r =>
    decide (r.2.message.createdAt < cutoff ∧ r.2.message.id ∉ room.waiting))

/-- A reply whose parent expires is a reply to nothing. -/
def orphaned (id : String) (r : Row) : Row :=
  if r.message.replyTo = some id then { r with message := { r.message with replyTo := none } } else r

/-- One less in the counters of everything and of what is public, of a category. -/
def countDown (counts : Dict (Audience × String) ℤ) (category : String) :
    Dict (Audience × String) ℤ :=
  counts.map fun key n =>
    if key.2 = category ∧ (key.1 = .all ∨ key.1 = .everyone) then n - 1 else n

/-- One row expires. -/
def expire (room : Room) (r : ℕ × Row) : Room :=
  { room with
    rows := (room.rows.map fun s => (s.1, orphaned r.2.message.id s.2)).filter
      fun s => s.2.message.id ≠ r.2.message.id
    search := room.search.filter (· ≠ (r.1, r.2.message.content))
    counts := countDown room.counts r.2.message.category
    recipients := room.recipients.filter fun e => e.messageId ≠ r.2.message.id }

/-- `_retain_messages`, twenty days after the cutoff. -/
def retain (cutoff : String) (room : Room) : Room :=
  if room.rows.any fun r => decide (r.2.message.createdAt < cutoff) then
    let rows := room.due cutoff
    let room := rows.foldl expire room
    if rows = [] then room else { room with counts := room.counts.filter fun e => e.2 ≠ 0 }
  else room

/-! ## Reading the counters -/

/-- The rows of one index range of `category_counts`. -/
def countRange (room : Room) (audience : Audience) (category : Option String) : List (String × ℤ) :=
  (room.counts.entries.filter fun e => decide (e.1.1 = audience) &&
    Conversation.inCategory category e.1.2).map fun e => (e.1.2, e.2)

/-- `_count_rows`. -/
def countRows (room : Room) (principal : String) (readAll : Bool) (category : Option String) :
    List (String × ℤ) :=
  if readAll then room.countRange .all category
  else room.countRange .everyone category ++ room.countRange (.principal principal) category

/-- `GROUP BY category`. -/
def groupByCategory (rows : List (String × ℤ)) : Dict String ℤ :=
  rows.foldl (fun groups row => groups.set row.1 ((groups.get? row.1).getD 0 + row.2)) .empty

/-- `_categories_at_snapshot`. -/
def categoriesAtSnapshot (room : Room) (principal : String) (readAll : Bool)
    (category : Option String) : Except String (Dict String ℤ) := do
  let groups := groupByCategory (room.countRows principal readAll category)
  Check.require (decide (groups.size ≤ 1024)) "category count output exceeds budget"
  .ok groups

/-- `counts`: the total and the categories. -/
def countsFor (room : Room) (principal : String) (readAll : Bool) :
    Except String (ℤ × Dict String ℤ) := do
  text principal "principal" 512
  let categories ← room.categoriesAtSnapshot principal readAll none
  .ok (categories.values.sum, categories)

/-- The total of a page: the counters at the head, a count below it. -/
def totalAt (room : Room) (principal : String) (readAll : Bool) (category : Option String)
    (water : ℕ) : ℤ :=
  if water = room.lastSequence then ((room.countRows principal readAll category).map Prod.snd).sum
  else (room.conversation.visibleBelow principal readAll category water).length

/-- What the audience rule lets a principal read. -/
def messagesFor (room : Room) (principal : String) (readAll : Bool) (category : Option String) :
    List Message :=
  room.conversation.messagesFor principal readAll category

end Room

/-! ## Runs -/

/-- What is done to the room. -/
inductive RoomCall
  | append (a : Conversation.Append)
  /-- `_retain_messages`, with its cutoff. -/
  | retain (cutoff : String)
  /-- A message waits for its recipient. -/
  | wait (id : String)
  /-- Every recipient of a message has it. -/
  | settle (id : String)

/-- A room, with every message that was appended to it and the identities that expired. -/
structure Watched where
  room : Room
  appended : List Message
  expired : List String

/-- A new room. -/
def Watched.new : Watched := ⟨.new, [], []⟩

/-- The calls on the room. -/
def roomCalls (host : Host) : Machine Watched RoomCall where
  step w
    | .append a => match w.room.append host a with
      | .ok (room, message, created) => { w with
          room := room
          appended := if created then w.appended ++ [message] else w.appended }
      | .error _ => w
    | .retain cutoff => { w with
        room := w.room.retain cutoff
        expired := w.expired ++ (w.room.due cutoff).map fun r => r.2.message.id }
    | .wait id => { w with room := { w.room with
        waiting := if id ∈ w.room.waiting then w.room.waiting else w.room.waiting ++ [id] } }
    | .settle id => { w with room := { w.room with
        waiting := w.room.waiting.filter (· ≠ id) } }

end ArchHub.Workshop

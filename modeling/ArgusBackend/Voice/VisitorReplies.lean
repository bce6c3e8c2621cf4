import ArgusBackend.Library.Runs
import Mathlib.Data.Int.Notation
import Mathlib.Logic.Function.Basic

/-!
# Household replies to visitors

A visitor's message opens a thread for its recipients.  A reply waits, one for each camera, until a
visitor is heard there: the call that brings it looks for a conversation on the camera, and a wake
of a visitor looks for a reply.  Whoever takes a reply says it in a later step.

* `VisitorReplies` : the threads and the waiting replies;
* `Desk.Step` : one method or one step of a call at a time.
-/

namespace ArgusBackend

namespace Voice

namespace Replies

/-- A text as its bytes. -/
abbrev Text := List UInt8

/-- How long a thread takes replies, how long one waits, and how long it may be. -/
structure VisitorRepliesConfig where
  accept : ℤ := 1800000
  hold : ℤ := 1800000
  maxChars : ℤ := 300

/-- A span of milliseconds in seconds. -/
def seconds (span : ℤ) : ℤ := span.tdiv 1000

/-- The characters of a text. -/
def utf8Characters (text : Text) : ℤ := text.countP fun c => c &&& 0xC0 ≠ 0x80

/-- A visitor's message opens a thread. -/
structure VisitorThreadInput where
  conversationId : String
  cameraId : ℤ := 0
  personId : ℤ := 0
  recipients : List ℤ
  at_ : ℤ := 0

/-- A member of the household replies. -/
structure VisitorReplyInput where
  userId : ℤ := 0
  conversationId : String
  text : Text
  now : ℤ := 0

/-- What becomes of a reply. -/
inductive VisitorReplyOutcome where
  | queued | said | notFound | expired | tooLong
  deriving DecidableEq, Repr

/-- `call` is the call that brought the reply. -/
structure PendingVisitorReply where
  text : Text
  personId : ℤ := 0
  until_ : ℤ := 0
  conversationId : String
  call : ℕ
  deriving DecidableEq, Repr

/-- A visitor is heard on a camera. -/
structure VisitorReplyTake where
  cameraId : ℤ := 0
  personId : ℤ := 0
  now : ℤ := 0
  deriving DecidableEq, Repr

/-- Who may reply to a visitor, and until when. -/
structure Thread where
  cameraId : ℤ := 0
  personId : ℤ := 0
  recipients : List ℤ
  acceptUntil : ℤ := 0
  deriving DecidableEq, Repr

/-- The threads by conversation, and the waiting replies by camera. -/
structure VisitorReplies where
  threads_ : String → Option Thread := fun _ => none
  pending_ : ℤ → Option PendingVisitorReply := fun _ => none

namespace VisitorReplies

variable (config_ : VisitorRepliesConfig)

/-- What is out of date is dropped. -/
def purge (now : ℤ) (replies : VisitorReplies) : VisitorReplies where
  pending_ cameraId := (replies.pending_ cameraId).filter fun pending => !(now > pending.until_)
  threads_ id := (replies.threads_ id).filter fun thread =>
    !(now > thread.acceptUntil + seconds config_.accept)

/-- `open` -/
def open_ (input : VisitorThreadInput) (replies : VisitorReplies) : VisitorReplies :=
  let purged := replies.purge config_ input.at_
  { purged with
    threads_ := Function.update purged.threads_ input.conversationId
      (some { cameraId := input.cameraId, personId := input.personId, recipients := input.recipients
              acceptUntil := input.at_ + seconds config_.accept }) }

/-- The outcome, and the thread if the reply waits. -/
def reply (call : ℕ) (input : VisitorReplyInput) (replies : VisitorReplies) :
    VisitorReplyOutcome × Option Thread × VisitorReplies :=
  match replies.threads_ input.conversationId with
  | none => (.notFound, none, replies)
  | some thread =>
    if input.userId ∉ thread.recipients then (.notFound, none, replies)
    else if input.now > thread.acceptUntil then (.expired, none, replies)
    else if utf8Characters input.text > config_.maxChars then (.tooLong, none, replies)
    else
      (.queued, some thread, { replies with
        pending_ := Function.update replies.pending_ thread.cameraId
          (some { text := input.text, personId := thread.personId
                  until_ := input.now + seconds config_.hold
                  conversationId := input.conversationId, call }) })

/-- The reply that waits on a camera, unless it is for somebody else. -/
def take (input : VisitorReplyTake) (replies : VisitorReplies) :
    Option PendingVisitorReply × VisitorReplies :=
  let purged := replies.purge config_ input.now
  match purged.pending_ input.cameraId with
  | none => (none, purged)
  | some pending =>
    if pending.personId > 0 ∧ input.personId > 0 ∧ pending.personId ≠ input.personId then
      (none, purged)
    else
      (some pending,
        { purged with pending_ := Function.update purged.pending_ input.cameraId none })

end VisitorReplies

/-! ### Calls and wakes -/

/-- What `deliverReply` reads of its conversation. -/
structure Heard where
  closed : Bool := false
  visitor : Bool := true
  cameraId : ℤ
  visitorPersonId : ℤ := 0
  deriving DecidableEq, Repr

/-- How far `replyToVisitor` has come. -/
inductive Progress where
  /-- the reply waits; next the conversation on the camera -/
  | queued
  /-- there is one; next `deliverReply` -/
  | found
  /-- a reply was taken; next it is said -/
  | taken
  | answered (outcome : VisitorReplyOutcome)
  deriving DecidableEq, Repr

/-- `thread` is the thread that let the reply wait. -/
structure Call where
  input : VisitorReplyInput
  thread : Option Thread
  progress : Progress

/-- A reply that was taken, where and when, by a call or by a wake. -/
structure Flight where
  pending : PendingVisitorReply
  heard : Heard
  now : ℤ
  caller : Option ℕ
  deriving DecidableEq, Repr

/-- `flights` are the replies that were taken and are not said yet, `said` those that were handed to
`say`. -/
structure Desk where
  replies : VisitorReplies := {}
  calls : List Call := []
  flights : List Flight := []
  said : List Flight := []
  clock : ℤ := 0

/-- `deliverReply` until it says the reply. -/
def deliver (config_ : VisitorRepliesConfig) (heard : Heard) (now : ℤ) (replies : VisitorReplies) :
    Option PendingVisitorReply × VisitorReplies :=
  if heard.closed then (none, replies)
  else if !heard.visitor then (none, replies)
  else replies.take config_ ⟨heard.cameraId, heard.visitorPersonId, now⟩

/-- What is asked of the desk, or goes on there. -/
inductive Event where
  | open_ (input : VisitorThreadInput)
  | reply (input : VisitorReplyInput)
  /-- `onCamera` of a call finds a conversation or none -/
  | find (i : ℕ) (found : Bool)
  | deliver (i : ℕ) (heard : Heard) (now : ℤ)
  /-- `deliverReply` of `onWake` -/
  | wake (heard : Heard) (now : ℤ)
  | say (flight : Flight)

namespace Desk

variable (config_ : VisitorRepliesConfig)

/-- The calls when one of them has come on. -/
def progress (s : Desk) (i : ℕ) (progress : Progress) : List Call :=
  s.calls.modify i fun call => { call with progress }

/-- What one event does; the moments do not go back. -/
inductive Step : Desk → Event → Desk → Prop
  | open_ {s : Desk} {input : VisitorThreadInput} (hnow : s.clock ≤ input.at_) :
      Step s (.open_ input)
        { s with replies := s.replies.open_ config_ input, clock := input.at_ }
  | reply {s : Desk} {input : VisitorReplyInput} {outcome : VisitorReplyOutcome}
      {thread : Option Thread} {replies : VisitorReplies} (hnow : s.clock ≤ input.now)
      (hreply : s.replies.reply config_ s.calls.length input = (outcome, thread, replies)) :
      Step s (.reply input)
        { s with
          replies
          calls := s.calls ++
            [⟨input, thread, if outcome = .queued then .queued else .answered outcome⟩]
          clock := input.now }
  | find {s : Desk} {i : ℕ} {call : Call} {found : Bool} (hi : s.calls[i]? = some call)
      (hcall : call.progress = .queued) :
      Step s (.find i found)
        { s with calls := s.progress i (if found then .found else .answered .queued) }
  | deliver {s : Desk} {i : ℕ} {call : Call} {heard : Heard} {now : ℤ}
      {pending : Option PendingVisitorReply} {replies : VisitorReplies}
      (hi : s.calls[i]? = some call) (hcall : call.progress = .found) (hnow : s.clock ≤ now)
      (hdeliver : Replies.deliver config_ heard now s.replies = (pending, replies)) :
      Step s (.deliver i heard now)
        { s with
          replies
          calls := s.progress i (if pending.isSome then .taken else .answered .queued)
          flights := s.flights ++ (pending.map fun p => ⟨p, heard, now, some i⟩).toList
          clock := now }
  | wake {s : Desk} {heard : Heard} {now : ℤ} {pending : Option PendingVisitorReply}
      {replies : VisitorReplies} (hnow : s.clock ≤ now)
      (hdeliver : Replies.deliver config_ heard now s.replies = (pending, replies)) :
      Step s (.wake heard now)
        { s with
          replies
          flights := s.flights ++ (pending.map fun p => ⟨p, heard, now, none⟩).toList
          clock := now }
  /-- deadline and camera of what is said are those of its take -/
  | say {s : Desk} {flight : Flight} (hflight : flight ∈ s.flights) :
      Step s (.say flight)
        { s with
          calls := match flight.caller with
            | none => s.calls
            | some i => s.progress i (.answered .said)
          flights := s.flights.erase flight
          said := s.said ++ [flight] }

/-- A run keeps its events and the states in which they come. -/
abbrev Runs (config_ : VisitorRepliesConfig) (clock : ℤ) : List (Desk × Event) → Desk → Prop :=
  Run (fun s notes s' => ∃ event, Step config_ s event s' ∧ notes = [(s, event)]) { clock }

end Desk

end Replies

end Voice

end ArgusBackend

import Mathlib.Data.Finmap
import Mathlib.Logic.Function.Basic
import WarringServer.Lib.Run

/-!
# Two pollers

`EpollPoller` keeps its interest set in the kernel and uses the index of a handler as a
flag; `PollPoller` keeps an array and uses it as a position, negates the descriptor of
a disabled entry, and removes an entry by a swap with the last one. Both find handlers by
descriptor in the hash of their base class.

A handler has an index in each of the two, so that the same calls can be made to both:
`Pollers` is the pair, `Interchangeable` what a user of either sees. The number of open
descriptors fits an `int`, so an index is not bounded here. A handler is made with any `int`
for its descriptor, also a negative one, which no call of the kernel takes.
-/

namespace WarringServer.Net

-- ---------------------------------------------------------------------------
-- Handlers
-- ---------------------------------------------------------------------------

/-- A handler object. Its descriptor is `const`; its events and its index are kept by the
states below. -/
structure EventHandler where
  id : Nat
  mFD : Int
  deriving DecidableEq, Repr

/-- `mEventHandlerHash`, by descriptor. -/
abbrev HandlerHash := Finmap fun _ : Int => EventHandler

/-- `emplace`: an older entry stays. -/
def HandlerHash.emplace (hash : HandlerHash) (h : EventHandler) : HandlerHash :=
  if h.mFD ∈ hash then hash else hash.insert h.mFD h

-- ---------------------------------------------------------------------------
-- EpollPoller
-- ---------------------------------------------------------------------------

inductive CtlOp where
  | add
  | mod
  | del

/-- The events the kernel watches a descriptor for. -/
abbrev InterestSet := Int → Option (BitVec 32)

/-- `epoll_ctl`. A valid request succeeds; `none` is `EBADF`, `EEXIST` or `ENOENT`. -/
def InterestSet.epollCtl (interest : InterestSet) (op : CtlOp) (fd : Int) (events : BitVec 32) :
    Option InterestSet :=
  if fd < 0 then none
  else
    match op, interest fd with
    | .add, none => some (Function.update interest fd (some events))
    | .mod, some _ => some (Function.update interest fd (some events))
    | .del, some _ => some (Function.update interest fd none)
    | .add, some _ | .mod, none | .del, none => none

structure EpollPoller where
  mEventHandlerHash : HandlerHash
  interest : InterestSet
  mIndex : EventHandler → Int

namespace EpollPoller

def new : EpollPoller where
  mEventHandlerHash := ∅
  interest := fun _ => none
  mIndex := fun _ => -1

def registerEventHandler (p : EpollPoller) (h : EventHandler) : EpollPoller :=
  { p with mEventHandlerHash := p.mEventHandlerHash.emplace h }

/-- `events` are those of `h`. -/
def update (p : EpollPoller) (h : EventHandler) (events : BitVec 32) : EpollPoller :=
  match p.mEventHandlerHash.lookup h.mFD with
  | none => p
  | some registered =>
    if p.mIndex h < 0 then
      match p.interest.epollCtl .add h.mFD events with
      | none => p
      | some interest =>
        { mEventHandlerHash := p.mEventHandlerHash.insert h.mFD h, interest,
          mIndex := Function.update p.mIndex h 1 }
    else if events = 0 then
      match p.interest.epollCtl .del h.mFD events with
      | none => p
      | some interest => { p with interest, mIndex := Function.update p.mIndex registered (-1) }
    else
      match p.interest.epollCtl .mod h.mFD events with
      | none => p
      | some interest =>
        { p with mEventHandlerHash := p.mEventHandlerHash.insert h.mFD h, interest }

def remove (p : EpollPoller) (h : EventHandler) : EpollPoller :=
  match p.mEventHandlerHash.lookup h.mFD with
  | none => p
  | some _ =>
    match p.interest.epollCtl .del h.mFD 0 with
    | none => p
    | some interest =>
      { mEventHandlerHash := p.mEventHandlerHash.erase h.mFD, interest,
        mIndex := Function.update p.mIndex h (-1) }

def eventSize (p : EpollPoller) : Nat := p.mEventHandlerHash.keys.card

def watched (p : EpollPoller) : Set (Int × BitVec 32) := {w | p.interest w.1 = some w.2}

end EpollPoller

-- ---------------------------------------------------------------------------
-- PollPoller
-- ---------------------------------------------------------------------------

/-- `events` is a `short`. -/
structure Pollfd where
  fd : Int
  events : BitVec 16
  deriving DecidableEq, Repr

structure PollPoller where
  mEventHandlerHash : HandlerHash
  mPollfds : List Pollfd
  mIndex : EventHandler → Int

namespace PollPoller

def new : PollPoller where
  mEventHandlerHash := ∅
  mPollfds := []
  mIndex := fun _ => -1

def registerEventHandler (p : PollPoller) (h : EventHandler) : PollPoller :=
  { p with mEventHandlerHash := p.mEventHandlerHash.emplace h }

/-- `none` is the exception of `at`. -/
def update (p : PollPoller) (h : EventHandler) (events : BitVec 32) : Option PollPoller :=
  match p.mEventHandlerHash.lookup h.mFD with
  | none => some p
  | some _ =>
    if p.mIndex h < 0 then
      some
        { mEventHandlerHash := p.mEventHandlerHash.insert h.mFD h,
          mPollfds := p.mPollfds ++ [⟨h.mFD, events.setWidth 16⟩],
          mIndex := Function.update p.mIndex h p.mPollfds.length }
    else if (p.mIndex h).toNat < p.mPollfds.length then
      let fd : Int := if events = 0 then -h.mFD - 1 else h.mFD
      some { p with mPollfds := p.mPollfds.set (p.mIndex h).toNat ⟨fd, events.setWidth 16⟩ }
    else none

/-- The descriptor of an entry, disabled or not. -/
def lastFD (entry : Pollfd) : Int := if entry.fd < 0 then -entry.fd - 1 else entry.fd

/-- `none` is a null pointer dereferenced. The index of `h` stays as it is. -/
def remove (p : PollPoller) (h : EventHandler) : Option PollPoller :=
  match p.mEventHandlerHash.lookup h.mFD with
  | none => some p
  | some _ =>
    if p.mIndex h < 0 ∨ p.mPollfds.length ≤ (p.mIndex h).toNat then some p
    else
      let hash := p.mEventHandlerHash.erase h.mFD
      match p.mPollfds.getLast? with
      | none => none
      | some back =>
        if (p.mIndex h).toNat = p.mPollfds.length - 1 then
          some { p with mEventHandlerHash := hash, mPollfds := p.mPollfds.dropLast }
        else
          -- `operator[]` makes a null pointer where there is no entry
          match hash.lookup (lastFD back) with
          | none => none
          | some last =>
            some
              { mEventHandlerHash := hash,
                mPollfds := (p.mPollfds.set (p.mIndex h).toNat back).dropLast,
                mIndex := Function.update p.mIndex last (p.mIndex h) }

def eventSize (p : PollPoller) : Nat := p.mEventHandlerHash.keys.card

/-- The kernel ignores an entry with a negative descriptor. -/
def watched (p : PollPoller) : Set (Int × BitVec 32) :=
  {w | ∃ entry ∈ p.mPollfds, 0 ≤ entry.fd ∧ entry.fd = w.1 ∧ entry.events.setWidth 32 = w.2}

end PollPoller

-- ---------------------------------------------------------------------------
-- What the calls ask for
-- ---------------------------------------------------------------------------

/-- Where a handler stands. -/
inductive Status where
  /-- Never updated. -/
  | idle
  | watched (events : BitVec 32)
  /-- Updated with no events. -/
  | disabled
  /-- Removed, after it was watched or disabled. -/
  | removed
  deriving DecidableEq, Repr

/-- A handler with a place in a poller. -/
def Status.present : Status → Bool
  | .watched _ | .disabled => true
  | .idle | .removed => false

def Status.events : Status → Option (BitVec 32)
  | .watched events => some events
  | .idle | .disabled | .removed => none

/-- An update with the given events. -/
def Status.update (events : BitVec 32) : Status → Status
  | .idle | .removed => .watched events
  | .watched _ | .disabled => if events = 0 then .disabled else .watched events

/-- The handlers registered, and where each stands. -/
structure Interest where
  owner : HandlerHash
  status : EventHandler → Status

namespace Interest

def new : Interest where
  owner := ∅
  status := fun _ => .idle

def registerEventHandler (t : Interest) (h : EventHandler) : Interest :=
  { t with owner := t.owner.emplace h }

def setStatus (t : Interest) (h : EventHandler) (status : Status) : Interest :=
  { t with status := Function.update t.status h status }

def update (t : Interest) (h : EventHandler) (events : BitVec 32) : Interest :=
  if t.owner.lookup h.mFD = some h then t.setStatus h ((t.status h).update events) else t

def remove (t : Interest) (h : EventHandler) : Interest :=
  if t.owner.lookup h.mFD = some h ∧ (t.status h).present = true then
    { t.setStatus h .removed with owner := t.owner.erase h.mFD }
  else t

/-- The events a descriptor should be watched for. -/
def events (t : Interest) (fd : Int) : Option (BitVec 32) :=
  (t.owner.lookup fd).bind fun h => (t.status h).events

end Interest

-- ---------------------------------------------------------------------------
-- The same calls to both
-- ---------------------------------------------------------------------------

inductive PollerCall where
  | registerEventHandler (h : EventHandler)
  /-- Any of the functions of a handler that change its events. -/
  | setEvents (h : EventHandler) (events : BitVec 32)
  | update (h : EventHandler)
  | remove (h : EventHandler)
  deriving DecidableEq, Repr

/-- Two pollers that get the same calls. `poll` is `none` once a call has thrown. -/
structure Pollers where
  mEvents : EventHandler → BitVec 32
  epoll : EpollPoller
  poll : Option PollPoller
  interest : Interest

namespace Pollers

def new : Pollers where
  mEvents := fun _ => 0
  epoll := .new
  poll := some .new
  interest := .new

def step (s : Pollers) : PollerCall → Pollers
  | .registerEventHandler h =>
    { s with epoll := s.epoll.registerEventHandler h,
             poll := s.poll.map (·.registerEventHandler h),
             interest := s.interest.registerEventHandler h }
  | .setEvents h events => { s with mEvents := Function.update s.mEvents h events }
  | .update h =>
    { s with epoll := s.epoll.update h (s.mEvents h),
             poll := s.poll.bind (·.update h (s.mEvents h)),
             interest := s.interest.update h (s.mEvents h) }
  | .remove h =>
    { s with epoll := s.epoll.remove h,
             poll := s.poll.bind (·.remove h),
             interest := s.interest.remove h }

/-- Neither has thrown, and both watch and count the same. -/
def Interchangeable (s : Pollers) : Prop :=
  ∃ poll, s.poll = some poll ∧ s.epoll.watched = poll.watched ∧
    s.epoll.eventSize = poll.eventSize

/-- What a call must be for the pollers to stay interchangeable. The first condition on
`update` and on `remove` is about descriptors: no two registered handlers for one.

`update`: the descriptor is not negative, the events fit a `short`, a disabled handler is
updated with some, and a handler that was removed does not come back. `remove`: the handler
is not disabled, and if it has come back, its old index is beyond the array. -/
def Allowed (s : Pollers) : PollerCall → Prop
  | .registerEventHandler _ | .setEvents _ _ => True
  | .update h => ∀ owner, s.interest.owner.lookup h.mFD = some owner → owner = h ∧
    0 ≤ h.mFD ∧ ((s.mEvents h).setWidth 16).setWidth 32 = s.mEvents h ∧
    (s.interest.status h = .disabled → s.mEvents h ≠ 0) ∧ s.interest.status h ≠ .removed
  | .remove h => ∀ owner, s.interest.owner.lookup h.mFD = some owner → owner = h ∧
    s.interest.status h ≠ .disabled ∧
    (s.interest.status h = .removed →
      ∀ poll, s.poll = some poll → poll.mPollfds.length ≤ (poll.mIndex h).toNat)

end Pollers

end WarringServer.Net

/-!
# Stacks of cleanup frames

A frame holds cleanups that wait to be run, newest first, and possibly a recovery mark.  A stack
lists the open frames of a thread from the innermost outward.  Frames are known by a number that is
given once: `push` takes the next one.

`take` is one step of closing a frame: it removes the newest cleanup that waits or, when none
waits, the frame.  The definitions are independent of what a cleanup is.
-/

namespace NonlocalExit

/-- The number of cleanups that may wait in one frame at a time. -/
def frameCapacity : Nat := 16

/-- An open cleanup frame. -/
structure Frame (α : Type) where
  id : Nat
  /-- The cleanups that wait, newest first. -/
  pending : List α
  /-- The recovery mark, if a call of `recover` aims at this frame. -/
  mark : Option Nat

/-- The open frames of a thread, innermost first, and the number that the next frame gets. -/
structure FrameStack (α : Type) where
  frames : List (Frame α)
  nextId : Nat

namespace Frame

variable {α : Type}

/-- A frame as it is opened. -/
def new (α : Type) (id : Nat) : Frame α := ⟨id, [], none⟩

/-- Whether a frame has room for another cleanup. -/
def hasRoom (f : Frame α) : Bool := f.pending.length < frameCapacity

/-- The frame with another cleanup waiting. -/
def add (c : α) (f : Frame α) : Frame α := { f with pending := c :: f.pending }

/-- The frame with other cleanups waiting. -/
def withPending (cs : List α) (f : Frame α) : Frame α := { f with pending := cs }

/-- The frame with another recovery mark. -/
def withMark (mark : Option Nat) (f : Frame α) : Frame α := { f with mark := mark }

/-- The innermost frame with a given number. -/
def find? (id : Nat) : List (Frame α) → Option (Frame α)
  | [] => none
  | f :: fs => if f.id = id then some f else find? id fs

/-- Changes the innermost frame with a given number. -/
def update (id : Nat) (change : Frame α → Frame α) : List (Frame α) → List (Frame α)
  | [] => []
  | f :: fs => if f.id = id then change f :: fs else f :: update id change fs

/-- Removes the innermost frame with a given number. -/
def erase (id : Nat) : List (Frame α) → List (Frame α)
  | [] => []
  | f :: fs => if f.id = id then fs else f :: erase id fs

end Frame

/-- What one step of closing a frame finds. -/
inductive Taken (α : Type)
  /-- The frame is not open. -/
  | absent
  /-- A cleanup was removed from the frame. -/
  | cleanup (c : α)
  /-- No cleanup was waiting, and the frame was removed. -/
  | closed

namespace FrameStack

variable {α : Type}

/-- The stack of a thread that has opened no frame yet. -/
def empty : FrameStack α := ⟨[], 0⟩

/-- The innermost open frame. -/
def innermost? (s : FrameStack α) : Option (Frame α) := s.frames.head?

/-- Opens a frame inside all others and gives its number. -/
def push (s : FrameStack α) : Nat × FrameStack α :=
  (s.nextId, ⟨Frame.new α s.nextId :: s.frames, s.nextId + 1⟩)

/-- Replaces the recovery mark of a frame and gives the mark it had. -/
def swapMark (id : Nat) (mark : Option Nat) (s : FrameStack α) : Option Nat × FrameStack α :=
  ((Frame.find? id s.frames).bind (·.mark),
    { s with frames := Frame.update id (·.withMark mark) s.frames })

/-- One step of closing a frame. -/
def take (id : Nat) (s : FrameStack α) : Taken α × FrameStack α :=
  match Frame.find? id s.frames with
  | none => (.absent, s)
  | some f =>
    match f.pending with
    | [] => (.closed, { s with frames := Frame.erase id s.frames })
    | c :: rest =>
      (.cleanup c, { s with frames := Frame.update id (·.withPending rest) s.frames })

/-- Adds a cleanup to the innermost frame; none when there is no frame or it is full. -/
def add? (c : α) (s : FrameStack α) : Option (FrameStack α) :=
  match s.frames with
  | [] => none
  | f :: fs => if f.hasRoom then some { s with frames := f.add c :: fs } else none

end FrameStack

end NonlocalExit

import Lookahead.Event
import Lookahead.Schedule.Queue

/-!
A partition's timeline: its queue of activities together with the instant and the priority of the
activity that is being dispatched.
-/

namespace Lookahead

/-- The queue, and the time and priority of what was taken from it last. -/
structure Timeline (π : Type) where
  queue : Queue (Action π) := {}
  now : Time := Time.zero
  priority : Int := 0

namespace Timeline

variable {π : Type}

def add (timeline : Timeline π) (activity : Scheduled π) : Timeline π :=
  { timeline with queue := timeline.queue.insert activity }

def insert (timeline : Timeline π) (time : Time) (priority : Int) (action : Action π) :
    Timeline π :=
  timeline.add { time, priority, payload := action }

/-- Queue several activities one after another. -/
def addAll (timeline : Timeline π) (activities : List (Scheduled π)) : Timeline π :=
  activities.foldl add timeline

def moveTo (timeline : Timeline π) (activity : Scheduled π) : Timeline π :=
  { timeline with now := activity.time, priority := activity.priority }

/-- Take the activity that is due first and move to its instant. -/
def advance (timeline : Timeline π) : Except QueueError (Scheduled π × Timeline π) :=
  match timeline.queue.pop with
  | .error e => .error e
  | .ok (activity, queue) => .ok (activity, { timeline with queue }.moveTo activity)

/-- Take all activities one after another, moving from instant to instant. -/
def advanceAll (timeline : Timeline π) : List (Scheduled π) × Timeline π :=
  let (activities, queue) := timeline.queue.popAll
  (activities, activities.foldl moveTo { timeline with queue })

/-- When the next activity is due, or `Time.never` if there is none. -/
def nextTime (timeline : Timeline π) : Time := timeline.queue.nextTime?.getD Time.never

/-- What is still to be dispatched, in the order of dispatch. -/
def pending (timeline : Timeline π) : List (Scheduled π) := timeline.queue.toList

def isEmpty (timeline : Timeline π) : Bool := timeline.queue.isEmpty

def countPending (timeline : Timeline π) (p : Action π → Bool) : Nat :=
  timeline.pending.countP fun activity => p activity.payload

@[simp] theorem now_add (timeline : Timeline π) (activity : Scheduled π) :
    (timeline.add activity).now = timeline.now := rfl

@[simp] theorem priority_add (timeline : Timeline π) (activity : Scheduled π) :
    (timeline.add activity).priority = timeline.priority := rfl

end Timeline

end Lookahead

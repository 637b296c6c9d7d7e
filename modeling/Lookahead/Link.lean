import Lookahead.Identity

/-!
Link ends and the tables that say where sends on them go.

A link is a named channel between two ends. Each end lives in the table of its partition with a
latency of its own, and is unwired until the registry pairs it with the other end of its name.
-/

namespace Lookahead

/-- What can go wrong with links, while they are wired and while they are used. -/
inductive LinkError where
  | unmatched (name : String)
  | unknownLink (partition : PartitionId) (link : LinkId)
  | unwired (name : String)
  | noRoute (partition : PartitionId)
deriving DecidableEq

def LinkError.message : LinkError → String
  | .unmatched name => s!"link '{name}' has no remote counterpart"
  | .unknownLink partition link => s!"unknown link {link} in partition {partition}"
  | .unwired name => s!"link '{name}' is not wired"
  | .noRoute partition => s!"no route to partition {partition}"

/-- One end of a link: a partition and a position in its table. -/
structure LinkEnd where
  partition : PartitionId
  link : LinkId
deriving DecidableEq

/-- Where a send on a link end goes. -/
inductive Delivery where
  | unwired
  | within (link : LinkId)
  | across (peer : LinkEnd)
deriving DecidableEq

def Delivery.between (source target : LinkEnd) : Delivery :=
  if source.partition = target.partition then .within target.link else .across target

/-- What a table knows about one link end. -/
structure Route where
  name : String
  latency : Nat
  delivery : Delivery := .unwired
deriving DecidableEq

/-- The link ends of one partition, in the order in which they were added. -/
structure RouteTable where
  partition : PartitionId
  routes : List Route := []
deriving DecidableEq

namespace RouteTable

def size (table : RouteTable) : Nat := table.routes.length

/-- The identity that the next link end will have. -/
def nextLink (table : RouteTable) : LinkId := table.size

/-- Add an unwired link end behind the others. -/
def push (table : RouteTable) (name : String) (latency : Nat) : RouteTable :=
  { table with routes := table.routes ++ [{ name := name, latency := latency }] }

/-- What the table knows about a link end. -/
def get (table : RouteTable) (link : LinkId) : Except LinkError Route :=
  match table.routes[link]? with
  | some route => .ok route
  | none => .error (.unknownLink table.partition link)

def setDelivery (table : RouteTable) (link : LinkId) (delivery : Delivery) : RouteTable :=
  { table with routes := table.routes.modify link fun route => { route with delivery } }

def toList (table : RouteTable) : List (LinkId × Route) :=
  table.routes.mapIdx fun link route => (link, route)

@[simp] theorem size_push (table : RouteTable) (name : String) (latency : Nat) :
    (table.push name latency).size = table.size + 1 := by
  simp [size, push]

@[simp] theorem size_setDelivery (table : RouteTable) (link : LinkId) (delivery : Delivery) :
    (table.setDelivery link delivery).size = table.size := by
  simp [size, setDelivery]

theorem get_eq_error_iff {table : RouteTable} {link : LinkId} {e : LinkError} :
    table.get link = .error e ↔
      table.size ≤ link ∧ e = .unknownLink table.partition link := by
  unfold get
  split
  · rename_i route h
    have := (List.getElem?_eq_some_iff.mp h).1
    simp only [reduceCtorEq, size, false_iff, not_and]
    intro hle
    omega
  · rename_i h
    have := List.getElem?_eq_none_iff.mp h
    simp only [Except.error.injEq, size, this, true_and]
    exact eq_comm

end RouteTable

end Lookahead

import Lookahead.Link

/-!
Pairing link ends by name.

The first end that registers under a name is stashed. A different end under the same name is wired
to it in both directions, and the name is free again. Everything is checked before anything is
changed.
-/

namespace Lookahead

/-- Stashed ends in the order in which they were stashed, and the number of wired pairs. -/
structure Registry where
  pending : List (String × LinkEnd) := []
  wired : Nat := 0
deriving DecidableEq

/-- What came of a registration. -/
inductive Registration where
  | pending
  | wired (peer : LinkEnd)
deriving DecidableEq

/-- Does `linkEnd` exist in the table at the position of its partition? -/
def checkEnd (tables : List RouteTable) (linkEnd : LinkEnd) : Except LinkError Unit :=
  match tables[linkEnd.partition]? with
  | none => .error (.unknownLink linkEnd.partition linkEnd.link)
  | some table => (table.get linkEnd.link).map fun _ => ()

/-- Make sends on `source` arrive at `target`. -/
def wire (tables : List RouteTable) (source target : LinkEnd) : List RouteTable :=
  tables.modify source.partition fun table =>
    table.setDelivery source.link (Delivery.between source target)

namespace Registry

def stashed? (registry : Registry) (name : String) : Option LinkEnd :=
  (registry.pending.find? fun entry => entry.1 == name).map (·.2)

/-- Register `linkEnd` under `name`. -/
def register (registry : Registry) (tables : List RouteTable) (name : String)
    (linkEnd : LinkEnd) : Except LinkError (Registration × Registry × List RouteTable) := do
  checkEnd tables linkEnd
  match registry.stashed? name with
  | none =>
    return (.pending, { registry with pending := registry.pending ++ [(name, linkEnd)] }, tables)
  | some peer =>
    if peer = linkEnd then
      return (.pending, registry, tables)
    checkEnd tables peer
    return (.wired peer,
      { pending := registry.pending.eraseP fun entry => entry.1 == name,
        wired := registry.wired + 1 },
      wire (wire tables linkEnd peer) peer linkEnd)

/-- The names that still wait for their other end, first come first. -/
def pendingNames (registry : Registry) : List String := registry.pending.map (·.1)

/-- Every name must have found its other end. -/
def finalize (registry : Registry) : Except LinkError Unit :=
  match registry.pendingNames.head? with
  | some name => .error (.unmatched name)
  | none => .ok ()

end Registry

end Lookahead

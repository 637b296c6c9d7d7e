/-!
Numbers that name the parts of a simulation. Each kind is dense and counts from zero in the order in
which the parts were made, so an identity is also a position.
-/

namespace Lookahead

/-- A partition: the `n`-th that the configuration declares. -/
abbrev PartitionId := Nat

/-- A link end within its partition: the `n`-th that was added there. -/
abbrev LinkId := Nat

/-- A clock within its partition: the `n`-th period that was used there. -/
abbrev ClockId := Nat

/-- A clock handler within its partition. Numbers are never used twice. -/
abbrev HandlerId := Nat

end Lookahead

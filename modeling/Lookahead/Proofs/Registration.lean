import Lookahead.Proofs.Pairing

/-!
Registering link ends.

The registry and the tables are changed in place, one access after another, and what was changed
before an error would stay changed. Nothing is: both ends are looked up before anything is written,
so a registration that fails leaves all as it was. One that succeeds touches the two ends that it
wires and nobody else (`Switchboard.registration_atomic`).
-/

namespace Lookahead

variable {tables : List RouteTable} {registry : Registry} {name : String} {e f peer : LinkEnd}

/-! ## Looking up -/

/-- Who is not found is missing, and the error names it. -/
theorem of_checkEnd_eq_error {err : LinkError} (h : checkEnd tables e = .error err) :
    routeAt tables e = none ∧ ∃ partition, err = .unknownLink partition e.link := by
  unfold checkEnd at h
  cases htable : tables[e.partition]? with
  | none =>
    simp only [htable, Except.error.injEq] at h
    exact ⟨by simp [routeAt, htable], _, h.symm⟩
  | some table =>
    simp only [htable] at h
    cases hget : table.get e.link with
    | ok route => simp [hget, Except.map] at h
    | error err =>
      simp only [hget, Except.map, Except.error.injEq] at h
      obtain ⟨hsize, rfl⟩ := RouteTable.get_eq_error_iff.mp hget
      refine ⟨?_, _, h.symm⟩
      simpa [routeAt, htable, RouteTable.size] using hsize

theorem checkEnd_eq_ok_iff :
    checkEnd tables e = .ok () ↔ ∃ route, routeAt tables e = some route := by
  constructor
  · intro h
    unfold checkEnd at h
    cases htable : tables[e.partition]? with
    | none => simp [htable] at h
    | some table =>
      cases hroute : table.routes[e.link]? with
      | none => simp [htable, RouteTable.get, hroute, Except.map] at h
      | some route => exact ⟨route, by simp [routeAt, htable, hroute]⟩
  · rintro ⟨route, hroute⟩
    exact checkEnd_of_routeAt hroute

theorem ne_none_of_checkEnd (h : checkEnd tables e = .ok ()) : routeAt tables e ≠ none := by
  obtain ⟨route, hroute⟩ := checkEnd_eq_ok_iff.mp h
  rw [hroute]
  exact nofun

theorem partitions_wire (tables : List RouteTable) (source target : LinkEnd) :
    (wire tables source target).map RouteTable.partition = tables.map RouteTable.partition := by
  refine List.ext_getElem? fun i => ?_
  rw [List.getElem?_map, List.getElem?_map, wire, List.getElem?_modify]
  cases tables[i]? with
  | none => rfl
  | some table =>
    show some (RouteTable.partition (if _ then _ else _)) = _
    split <;> rfl

/-- Tables are told by whose they are and by the routes in them. -/
theorem tables_ext {others : List RouteTable}
    (hpartitions : tables.map RouteTable.partition = others.map RouteTable.partition)
    (hroutes : ∀ e, routeAt tables e = routeAt others e) : tables = others := by
  refine List.ext_getElem? fun i => ?_
  have hpartition := congrArg (fun ids => ids[i]?) hpartitions
  simp only [List.getElem?_map] at hpartition
  cases htable : tables[i]? with
  | none =>
    rw [htable, Option.map_none] at hpartition
    exact (Option.map_eq_none_iff.mp hpartition.symm).symm
  | some table =>
    rw [htable, Option.map_some] at hpartition
    obtain ⟨other, hother, hsame⟩ := Option.map_eq_some_iff.mp hpartition.symm
    have hlists : table.routes = other.routes := by
      refine List.ext_getElem? fun link => ?_
      simpa [routeAt, htable, hother] using hroutes ⟨i, link⟩
    rw [hother, Option.some.injEq]
    cases table
    cases other
    cases hlists
    cases hsame
    rfl

/-! ## What comes of a registration -/

/-- All that can come of registering `e` under `name`. -/
inductive Registry.Registers (registry : Registry) (tables : List RouteTable) (name : String)
    (e : LinkEnd) : Except LinkError (Registration × Registry × List RouteTable) → Prop
  /-- There is no such end. -/
  | unknown {err : LinkError} (he : checkEnd tables e = .error err) :
      Registers registry tables name e (.error err)
  /-- Nobody waits under the name, and the end begins to. -/
  | stash (he : checkEnd tables e = .ok ()) (hstashed : registry.stashed? name = none) :
      Registers registry tables name e
        (.ok (.pending, { registry with pending := registry.pending ++ [(name, e)] }, tables))
  /-- The end waits there already. -/
  | again (he : checkEnd tables e = .ok ()) (hstashed : registry.stashed? name = some e) :
      Registers registry tables name e (.ok (.pending, registry, tables))
  /-- The one that waits there does not exist any more. -/
  | gone {peer : LinkEnd} {err : LinkError} (he : checkEnd tables e = .ok ())
      (hstashed : registry.stashed? name = some peer) (hne : peer ≠ e)
      (hpeer : checkEnd tables peer = .error err) :
      Registers registry tables name e (.error err)
  /-- The two are wired to each other. -/
  | pair {peer : LinkEnd} (he : checkEnd tables e = .ok ())
      (hstashed : registry.stashed? name = some peer) (hne : peer ≠ e)
      (hpeer : checkEnd tables peer = .ok ()) :
      Registers registry tables name e
        (.ok (.wired peer,
          { pending := registry.pending.eraseP fun entry => entry.1 == name,
            wired := registry.wired + 1 },
          wire (wire tables e peer) peer e))

theorem Registry.registers (registry : Registry) (tables : List RouteTable) (name : String)
    (e : LinkEnd) : registry.Registers tables name e (registry.register tables name e) := by
  unfold Registry.register
  cases he : checkEnd tables e with
  | error err => exact .unknown he
  | ok =>
    cases hstashed : registry.stashed? name with
    | none => exact .stash he hstashed
    | some peer =>
      by_cases hne : peer = e
      · subst hne
        simpa [bind, Except.bind, pure, Except.pure] using Registers.again he hstashed
      · cases hpeer : checkEnd tables peer with
        | error err =>
          simpa [bind, Except.bind, hne, hpeer] using Registers.gone he hstashed hne hpeer
        | ok =>
          simpa [bind, Except.bind, pure, Except.pure, hne, hpeer] using
            Registers.pair he hstashed hne hpeer

/-- The entry of an end that waits is taken out from among the others. -/
theorem Registry.split_of_stashed (h : registry.stashed? name = some peer) :
    ∃ front back, registry.pending = front ++ (name, peer) :: back ∧
      (∀ entry ∈ front, entry.1 ≠ name) ∧
      (registry.pending.eraseP fun entry => entry.1 == name) = front ++ back := by
  obtain ⟨entry, hfind, rfl⟩ := Option.map_eq_some_iff.mp h
  obtain ⟨hname, front, back, hsplit, hfront⟩ := List.find?_eq_some_iff_append.mp hfind
  have hentry : entry = (name, entry.2) := Prod.ext (by simpa using hname) rfl
  refine ⟨front, back, hsplit.trans (by rw [← hentry]), ?_, ?_⟩
  · intro other hother
    simpa using hfront other hother
  · rw [hsplit, List.eraseP_append_right]
    · exact congrArg (front ++ ·) (List.eraseP_cons_of_pos hname)
    · intro other hother
      simpa using hfront other hother

namespace Registry

variable {registry' : Registry} {tables' : List RouteTable}

/-- A registration fails exactly if one of the ends that it is about does not exist. -/
theorem register_fails_iff (registry : Registry) (tables : List RouteTable) (name : String)
    (e : LinkEnd) :
    (∃ err, registry.register tables name e = .error err) ↔ routeAt tables e = none ∨
      ∃ peer, registry.stashed? name = some peer ∧ peer ≠ e ∧ routeAt tables peer = none := by
  have hresult := registry.registers tables name e
  generalize registry.register tables name e = result at hresult
  cases hresult with
  | unknown he => exact iff_of_true ⟨_, rfl⟩ (Or.inl (of_checkEnd_eq_error he).1)
  | stash he hstashed =>
    refine iff_of_false nofun ?_
    rintro (hnone | ⟨peer, hpeer, _⟩)
    · exact ne_none_of_checkEnd he hnone
    · simp [hstashed] at hpeer
  | again he hstashed =>
    refine iff_of_false nofun ?_
    rintro (hnone | ⟨peer, hpeer, hne, _⟩)
    · exact ne_none_of_checkEnd he hnone
    · exact hne (Option.some.inj (hpeer.symm.trans hstashed))
  | gone he hstashed hne hpeer =>
    exact iff_of_true ⟨_, rfl⟩ (Or.inr ⟨_, hstashed, hne, (of_checkEnd_eq_error hpeer).1⟩)
  | pair he hstashed hne hpeer =>
    refine iff_of_false nofun ?_
    rintro (hnone | ⟨other, hother, _, hnone⟩)
    · exact ne_none_of_checkEnd he hnone
    · obtain rfl := Option.some.inj (hother.symm.trans hstashed)
      exact ne_none_of_checkEnd hpeer hnone

theorem missing_of_register {err : LinkError} (h : registry.register tables name e = .error err) :
    ∃ partition f, err = .unknownLink partition f.link ∧ routeAt tables f = none ∧
      (f = e ∨ registry.stashed? name = some f) := by
  have hresult := registry.registers tables name e
  rw [h] at hresult
  cases hresult with
  | unknown he =>
    obtain ⟨hnone, partition, herr⟩ := of_checkEnd_eq_error he
    exact ⟨partition, e, herr, hnone, Or.inl rfl⟩
  | gone he hstashed hne hpeer =>
    obtain ⟨hnone, partition, herr⟩ := of_checkEnd_eq_error hpeer
    exact ⟨partition, _, herr, hnone, Or.inr hstashed⟩

/-- Who waits touches no table, and is behind the others unless it has waited already. -/
theorem of_register_pending
    (h : registry.register tables name e = .ok (.pending, registry', tables')) :
    tables' = tables ∧ registry'.wired = registry.wired ∧
      (registry.stashed? name = none ∧ registry'.pending = registry.pending ++ [(name, e)] ∨
        registry.stashed? name = some e ∧ registry'.pending = registry.pending) := by
  have hresult := registry.registers tables name e
  rw [h] at hresult
  cases hresult with
  | stash he hstashed => exact ⟨rfl, rfl, Or.inl ⟨hstashed, rfl⟩⟩
  | again he hstashed => exact ⟨rfl, rfl, Or.inr ⟨hstashed, rfl⟩⟩

/-- Of two ends that are wired the one has waited, and does not any more. -/
theorem of_register_wired
    (h : registry.register tables name e = .ok (.wired peer, registry', tables')) :
    peer ≠ e ∧ registry.stashed? name = some peer ∧
      registry' = ⟨registry.pending.eraseP fun entry => entry.1 == name, registry.wired + 1⟩ ∧
      tables' = wire (wire tables e peer) peer e ∧ ∃ route other,
        routeAt tables e = some route ∧ routeAt tables peer = some other := by
  have hresult := registry.registers tables name e
  rw [h] at hresult
  cases hresult with
  | pair he hstashed hne hpeer =>
    obtain ⟨route, hroute⟩ := checkEnd_eq_ok_iff.mp he
    obtain ⟨other, hother⟩ := checkEnd_eq_ok_iff.mp hpeer
    exact ⟨hne, hstashed, rfl, rfl, route, other, hroute, hother⟩

end Registry

/-- Two ends that are wired to each other, and all others as they were. -/
theorem routeAt_rewired {route other : Route} (he : routeAt tables e = some route)
    (hpeer : routeAt tables peer = some other) (hne : peer ≠ e) (f : LinkEnd) :
    routeAt (wire (wire tables e peer) peer e) f = (routeAt tables f).map fun route =>
      if f = e then { route with delivery := Delivery.between e peer }
      else if f = peer then { route with delivery := Delivery.between peer e }
      else route := by
  rw [routeAt_wire_wire he hpeer hne.symm]
  by_cases hfpeer : f = peer
  · subst hfpeer
    simp [hpeer, hne]
  · by_cases hfe : f = e
    · subst hfe
      simp [he, hne.symm]
    · simp [hfpeer, hfe]

/-! ## In place -/

structure Switchboard where
  registry : Registry := {}
  tables : List RouteTable

namespace Switchboard

/-- Something that is done to a switchboard. An error ends it, and what was changed before stays
changed. -/
abbrev Task : Type → Type := ExceptT LinkError (StateM Switchboard)

def perform {α : Type} (board : Switchboard) (task : Task α) : Except LinkError α × Switchboard :=
  (task.run).run board

def lookUp (e : LinkEnd) : Task Unit :=
  fun board => (checkEnd board.tables e, board)

/-- Make sends on `source` arrive at `target`. The end is looked up once more, and it is an error if
it is not there. -/
def connect (source target : LinkEnd) : Task Unit := do
  lookUp source
  modify fun board => { board with tables := wire board.tables source target }

def note (change : Registry → Registry) : Task Unit :=
  modify fun board => { board with registry := change board.registry }

/-- Register an end under a name, one access after another. -/
def register (name : String) (e : LinkEnd) : Task Registration := do
  lookUp e
  let board ← get
  match board.registry.stashed? name with
  | none =>
    note fun registry => { registry with pending := registry.pending ++ [(name, e)] }
    return .pending
  | some peer =>
    if peer = e then
      return .pending
    else
      lookUp peer
      connect e peer
      connect peer e
      note fun registry =>
        { registry with pending := registry.pending.eraseP fun entry => entry.1 == name }
      note fun registry => { registry with wired := registry.wired + 1 }
      return .wired peer

variable {α β : Type} {board : Switchboard}

theorem perform_bind (board : Switchboard) (task : Task α) (next : α → Task β) :
    board.perform (task >>= next) =
      match board.perform task with
      | (.ok a, after) => after.perform (next a)
      | (.error err, after) => (.error err, after) := by
  unfold perform
  simp only [ExceptT.run_bind, StateT.run_bind]
  obtain ⟨answer, after⟩ := StateT.run (ExceptT.run task) board
  cases answer <;> rfl

@[simp] theorem perform_pure (board : Switchboard) (a : α) :
    board.perform (pure a) = (.ok a, board) := rfl

@[simp] theorem perform_get (board : Switchboard) : board.perform get = (.ok board, board) := rfl

@[simp] theorem perform_lookUp (board : Switchboard) (e : LinkEnd) :
    board.perform (lookUp e) = (checkEnd board.tables e, board) := rfl

@[simp] theorem perform_note (board : Switchboard) (change : Registry → Registry) :
    board.perform (note change) = (.ok (), { board with registry := change board.registry }) := rfl

theorem perform_connect (h : checkEnd board.tables e = .ok ()) (target : LinkEnd) :
    board.perform (connect e target) =
      (.ok (), { board with tables := wire board.tables e target }) := by
  unfold connect
  rw [perform_bind, perform_lookUp, h]
  rfl

/-- Step by step it comes to the same as all at once, and an error leaves nothing behind. -/
theorem perform_register (board : Switchboard) (name : String) (e : LinkEnd) :
    board.perform (register name e) =
      match board.registry.register board.tables name e with
      | .ok (answer, registry, tables) => (.ok answer, ⟨registry, tables⟩)
      | .error err => (.error err, board) := by
  have hresult := board.registry.registers board.tables name e
  generalize board.registry.register board.tables name e = result at hresult
  unfold register
  cases hresult with
  | unknown he => simp only [perform_bind, perform_lookUp, he]
  | stash he hstashed =>
    simp only [perform_bind, perform_lookUp, perform_get, perform_note, perform_pure, he, hstashed]
  | again he hstashed =>
    simp only [perform_bind, perform_lookUp, perform_get, perform_pure, he, hstashed, if_true]
  | gone he hstashed hne hpeer =>
    simp only [perform_bind, perform_lookUp, perform_get, he, hstashed, hne, hpeer, if_false]
  | @pair peer he hstashed hne hpeer =>
    have hpeer' : checkEnd (wire board.tables e peer) peer = .ok () := by
      obtain ⟨other, hother⟩ := checkEnd_eq_ok_iff.mp hpeer
      refine checkEnd_eq_ok_iff.mpr ⟨other, ?_⟩
      rw [routeAt_wire, if_neg hne, hother]
    have hback : perform ⟨board.registry, wire board.tables e peer⟩ (connect peer e) = _ :=
      perform_connect hpeer' e
    simp only [perform_bind, perform_lookUp, perform_get, perform_note, perform_pure, he, hstashed,
      hne, hpeer, if_false, perform_connect he, hback]

/-! ### One registration -/

/-- What the registration of `e` under `name` answers, and what it leaves of a switchboard. -/
structure Registers (board : Switchboard) (name : String) (e : LinkEnd)
    (answer : Except LinkError Registration) (after : Switchboard) : Prop where
  /-- It fails exactly if the end is missing, or the other end that waits under its name, -/
  fails : (∃ err, answer = .error err) ↔ routeAt board.tables e = none ∨
    ∃ peer, board.registry.stashed? name = some peer ∧ peer ≠ e ∧
      routeAt board.tables peer = none
  /-- and then nothing has changed. The error names an end that is missing. -/
  unchanged : ∀ err, answer = .error err → after = board ∧
    ∃ partition f, err = .unknownLink partition f.link ∧ routeAt board.tables f = none ∧
      (f = e ∨ board.registry.stashed? name = some f)
  /-- An end that is to wait is put behind the others that do, unless it waits already. -/
  pending : answer = .ok .pending →
    after.tables = board.tables ∧ after.registry.wired = board.registry.wired ∧
      (board.registry.stashed? name = none ∧
          after.registry.pending = board.registry.pending ++ [(name, e)] ∨
        board.registry.stashed? name = some e ∧
          after.registry.pending = board.registry.pending)
  /-- An end that is wired takes the one that has waited out from among the others, -/
  wired : ∀ peer, answer = .ok (.wired peer) → peer ≠ e ∧
    after.registry.wired = board.registry.wired + 1 ∧
    ∃ front back, board.registry.pending = front ++ (name, peer) :: back ∧
      (∀ entry ∈ front, entry.1 ≠ name) ∧ after.registry.pending = front ++ back
  /-- and sends on each of the two arrive at the other one, which is all that changes. -/
  rewired : ∀ peer, answer = .ok (.wired peer) →
    after.tables.map RouteTable.partition = board.tables.map RouteTable.partition ∧
    ∀ f, routeAt after.tables f = (routeAt board.tables f).map fun route =>
      if f = e then { route with delivery := Delivery.between e peer }
      else if f = peer then { route with delivery := Delivery.between peer e }
      else route

/-- Registering an end under a name, in whatever state the registry and the tables are, is all or
nothing and touches nothing else. -/
theorem registration_atomic (board : Switchboard) (name : String) (e : LinkEnd) :
    board.Registers name e (board.perform (register name e)).1
        (board.perform (register name e)).2 ∧
      board.perform (register name e) =
        match board.registry.register board.tables name e with
        | .ok (answer, registry, tables) => (.ok answer, ⟨registry, tables⟩)
        | .error err => (.error err, board) := by
  refine ⟨?_, perform_register board name e⟩
  have hfails := board.registry.register_fails_iff board.tables name e
  rw [perform_register]
  cases hresult : board.registry.register board.tables name e with
  | error err =>
    rw [hresult] at hfails
    exact {
      fails := ⟨fun _ => hfails.mp ⟨err, rfl⟩, fun _ => ⟨err, rfl⟩⟩
      unchanged := fun other h => by
        cases h
        exact ⟨rfl, Registry.missing_of_register hresult⟩
      pending := nofun
      wired := nofun
      rewired := nofun }
  | ok result =>
    obtain ⟨answer, registry, tables⟩ := result
    rw [hresult] at hfails
    have hnone := (not_congr hfails).mp nofun
    constructor
    case fails => exact iff_of_false nofun hnone
    case unchanged => exact nofun
    case pending =>
      intro h
      cases h
      exact Registry.of_register_pending hresult
    case wired =>
      intro peer h
      cases h
      obtain ⟨hne, hstashed, rfl, _⟩ := Registry.of_register_wired hresult
      obtain ⟨front, back, hsplit, hfront, herase⟩ := Registry.split_of_stashed hstashed
      exact ⟨hne, rfl, front, back, hsplit, hfront, herase⟩
    case rewired =>
      intro peer h
      cases h
      obtain ⟨hne, _, _, rfl, route, other, hroute, hother⟩ := Registry.of_register_wired hresult
      exact ⟨by rw [partitions_wire, partitions_wire], routeAt_rewired hroute hother hne⟩

end Switchboard

end Lookahead

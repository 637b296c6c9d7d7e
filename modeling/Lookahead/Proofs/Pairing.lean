import Lookahead.Proofs.Relay

/-!
Pairs of link ends.

A builder is asked for one thing after another, and what it refuses leaves it as it was. Whatever it
was asked for, its link ends are in pairs that lead to each other, apart from those that wait for
their other end. Of each name the last end waits if the name was used an odd number of times, and
nobody waits otherwise (`Draft.ends_pair_up`). When a simulation is built nobody waits, so all of
its link ends are in pairs.
-/

namespace Lookahead

variable {M : Model}

/-- What is left of a list without repetitions is told by what is in it. -/
theorem eq_filter_of_sublist {α : Type} {items others : List α} {p : α → Bool}
    (hsub : items.Sublist others) (hnodup : others.Nodup)
    (h : ∀ a ∈ others, p a = true ↔ a ∈ items) : items = others.filter p := by
  induction hsub with
  | slnil => rfl
  | @cons items others a hsub ih =>
    obtain ⟨hnot, hrest⟩ := List.nodup_cons.mp hnodup
    have hout : ¬p a = true := fun hp =>
      hnot (hsub.subset ((h a (List.mem_cons_self ..)).mp hp))
    rw [List.filter_cons_of_neg hout]
    exact ih hrest fun b hb => h b (List.mem_cons_of_mem _ hb)
  | @cons_cons items others a hsub ih =>
    obtain ⟨hnot, hrest⟩ := List.nodup_cons.mp hnodup
    rw [List.filter_cons_of_pos ((h a (List.mem_cons_self ..)).mpr (List.mem_cons_self ..))]
    refine congrArg (a :: ·) (ih hrest fun b hb => ?_)
    rw [h b (List.mem_cons_of_mem _ hb), List.mem_cons]
    exact or_iff_right fun hba => hnot (hba ▸ hb)

/-! ## Peers -/

/-- Two different link ends of one name that lead to each other. -/
def Peers (tables : List RouteTable) (e f : LinkEnd) : Prop :=
  e ≠ f ∧ ∃ route back, routeAt tables e = some route ∧ routeAt tables f = some back ∧
    back.name = route.name ∧ route.delivery = Delivery.between e f ∧
    back.delivery = Delivery.between f e

namespace Peers

variable {tables tables' : List RouteTable} {e f : LinkEnd} {route : Route}

theorem symm (h : Peers tables e f) : Peers tables f e := by
  obtain ⟨hne, route, back, he, hf, hname, hleads, hreturn⟩ := h
  exact ⟨hne.symm, back, route, hf, he, hname.symm, hreturn, hleads⟩

/-- Peers stay peers as long as nobody touches their routes. -/
theorem congr (h : Peers tables e f) (he : routeAt tables' e = routeAt tables e)
    (hf : routeAt tables' f = routeAt tables f) : Peers tables' e f := by
  obtain ⟨hne, route, back, hroute, hback, hrest⟩ := h
  exact ⟨hne, route, back, he.trans hroute, hf.trans hback, hrest⟩

theorem delivery_eq (h : Peers tables e f) (he : routeAt tables e = some route) :
    route.delivery = Delivery.between e f := by
  obtain ⟨_, other, _, hother, _, _, hleads, _⟩ := h
  rw [he] at hother
  cases hother
  exact hleads

theorem not_unwired (h : Peers tables e f) (he : routeAt tables e = some route) :
    route.delivery ≠ .unwired := by
  rw [h.delivery_eq he]
  exact Delivery.between_ne_unwired e f

end Peers

theorem Delivery.between_eq_within_iff {e f : LinkEnd} {link : LinkId} :
    Delivery.between e f = .within link ↔ e.partition = f.partition ∧ link = f.link := by
  unfold Delivery.between
  split
  · rename_i h
    simp [h, eq_comm]
  · rename_i h
    simp [h]

theorem Delivery.between_eq_across_iff {e f peer : LinkEnd} :
    Delivery.between e f = .across peer ↔ e.partition ≠ f.partition ∧ peer = f := by
  unfold Delivery.between
  split
  · rename_i h
    simp [h]
  · rename_i h
    simp [h, eq_comm]

/-! ## Registering a new end -/

theorem checkEnd_of_routeAt {tables : List RouteTable} {e : LinkEnd} {route : Route}
    (h : routeAt tables e = some route) : checkEnd tables e = .ok () := by
  unfold routeAt at h
  obtain ⟨table, htable, hroute⟩ := Option.bind_eq_some_iff.mp h
  unfold checkEnd RouteTable.get
  rw [htable]
  simp only [hroute]
  rfl

/-- Where names differ, an end that waits is the one that is found under its name. -/
theorem Registry.stashed?_iff {registry : Registry} {name : String} {e : LinkEnd}
    (hnames : registry.pendingNames.Nodup) :
    registry.stashed? name = some e ↔ (name, e) ∈ registry.pending := by
  refine ⟨Wiring.stashed_mem, fun hmem => ?_⟩
  cases hstashed : registry.stashed? name with
  | none =>
    simp only [stashed?, Option.map_eq_none_iff, List.find?_eq_none] at hstashed
    exact absurd (beq_self_eq_true name) (hstashed _ hmem)
  | some peer => rw [Wiring.eq_of_name hnames (Wiring.stashed_mem hstashed) hmem]

namespace Wiring

variable {tables : List RouteTable} {registry : Registry} {e peer : LinkEnd} {name : String}
  {route : Route}

/-- Registering a new end always succeeds: it waits if nobody of its name does, and is wired to the
one that waits otherwise. -/
theorem register_eq (h : Wiring tables registry.pending) (name : String)
    (he : routeAt tables e = some route)
    (hwaits : ∀ entry ∈ registry.pending, entry.2 ≠ e) :
    registry.register tables name e = .ok (
      match registry.stashed? name with
      | none => (.pending, { registry with pending := registry.pending ++ [(name, e)] }, tables)
      | some peer =>
        (.wired peer,
          { pending := registry.pending.eraseP fun entry => entry.1 == name,
            wired := registry.wired + 1 },
          wire (wire tables e peer) peer e)) := by
  unfold Registry.register
  rw [checkEnd_of_routeAt he]
  cases hstashed : registry.stashed? name with
  | none => rfl
  | some peer =>
    have hpeer := stashed_mem hstashed
    obtain ⟨other, hother, _⟩ := h.waiting name peer hpeer
    have hne : peer ≠ e := hwaits _ hpeer
    simp only [hne, ↓reduceIte, checkEnd_of_routeAt hother]
    rfl

/-- An end waits under a name exactly if it is the one that is stashed there. -/
theorem stashed?_eq_some_iff (h : Wiring tables registry.pending) :
    registry.stashed? name = some e ↔ (name, e) ∈ registry.pending :=
  Registry.stashed?_iff h.names

theorem stashed?_eq_none_iff (h : Wiring tables registry.pending) :
    registry.stashed? name = none ↔ name ∉ registry.pendingNames := by
  rw [Option.eq_none_iff_forall_ne_some]
  simp only [ne_eq, h.stashed?_eq_some_iff, Registry.pendingNames, List.mem_map, Prod.exists,
    exists_and_right, exists_eq_right, not_exists]

/-- One of those that wait, and the others. -/
theorem perm_eraseP
    (hnames : (registry.pending.map fun entry => entry.1).Nodup)
    (hpeer : (name, peer) ∈ registry.pending) :
    (registry.pending.map fun entry => entry.2).Perm
      (peer ::
        (registry.pending.eraseP fun entry => entry.1 == name).map fun entry => entry.2) := by
  obtain ⟨entry, front, back, _, hentry, hsplit, herase⟩ :=
    List.exists_of_eraseP (p := fun entry => entry.1 == name) hpeer (by simp)
  have hname : entry.1 = name := by simpa using hentry
  have hmem : (name, entry.2) ∈ registry.pending := by
    rw [hsplit, ← hname]
    simp
  have hsame := eq_of_name hnames hmem hpeer
  rw [herase, hsplit, ← hsame]
  simp only [List.map_append, List.map_cons]
  exact List.perm_middle

/-- All names but that of the one taken out still wait. -/
theorem mem_names_eraseP {pending : List (String × LinkEnd)} {other : String}
    (hnames : (pending.map fun entry => entry.1).Nodup) :
    other ∈ ((pending.eraseP fun entry => entry.1 == name).map fun entry => entry.1) ↔
      other ∈ (pending.map fun entry => entry.1) ∧ other ≠ name := by
  simp only [List.mem_map, Prod.exists, exists_and_right, exists_eq_right]
  constructor
  · rintro ⟨f, hf⟩
    exact ⟨⟨f, List.mem_of_mem_eraseP hf⟩, not_mem_eraseP hnames hf⟩
  · rintro ⟨⟨f, hf⟩, hne⟩
    exact ⟨f, (List.mem_eraseP_of_neg (by simpa using hne)).mpr hf⟩

end Wiring

theorem size_wire (tables : List RouteTable) (source target : LinkEnd) (j : PartitionId) :
    (wire tables source target)[j]?.map RouteTable.size = tables[j]?.map RouteTable.size := by
  unfold wire
  rw [List.getElem?_modify]
  cases tables[j]? with
  | none => rfl
  | some table =>
    show some (RouteTable.size (if _ then _ else _)) = _
    split <;> simp

/-! ## Calls -/

/-- A link end that was added. -/
structure Addition (M : Model) where
  name : String
  linkEnd : LinkEnd
  receiver : Option M.Receiver

/-- What a builder can be asked for. -/
inductive Builder.Call (M : Model) where
  | addLink (partition : PartitionId) (name : String) (latency : Nat) (receiver : M.Receiver)
  | addOutputLink (partition : PartitionId) (name : String) (latency : Nat)
  | scheduleEvent (linkEnd : LinkEnd) (time : Time) (payload : M.Payload) (priority : Int)
  | registerClock (partition : PartitionId) (period : Period) (handler : M.Ticker)
  | registerClockSpec (partition : PartitionId) (spec : String) (handler : M.Ticker)
  | unregisterClock (partition : PartitionId) (handle : ClockHandle)
  | addParticipant (partition : PartitionId) (participant : M.Participant)

/-- A builder, and the link ends that were added to it so far. -/
structure Draft (M : Model) where
  builder : Builder M
  added : List (Addition M) := []

theorem map_snd_eq_ok {ε α β : Type} {x : Except ε (α × β)} {b : β} (h : x.map (·.2) = .ok b) :
    ∃ a, x = .ok (a, b) := by
  cases x with
  | error e => cases h
  | ok y =>
    cases h
    exact ⟨y.1, rfl⟩

namespace Draft

def addEnd (draft : Draft M) (partition : PartitionId) (name : String) (latency : Nat)
    (receiver : Option M.Receiver) : Draft M :=
  match draft.builder.addEnd partition name latency receiver with
  | .ok (linkEnd, builder) => ⟨builder, draft.added ++ [⟨name, linkEnd, receiver⟩]⟩
  | .error _ => draft

def replace (draft : Draft M) : Except ConfigError (Builder M) → Draft M
  | .ok builder => { draft with builder }
  | .error _ => draft

def call (draft : Draft M) : Builder.Call M → Draft M
  | .addLink partition name latency receiver =>
    draft.addEnd partition name latency (some receiver)
  | .addOutputLink partition name latency => draft.addEnd partition name latency none
  | .scheduleEvent linkEnd time payload priority =>
    draft.replace (draft.builder.scheduleEvent linkEnd time payload priority)
  | .registerClock partition period handler =>
    draft.replace ((draft.builder.registerClock partition period handler).map (·.2))
  | .registerClockSpec partition spec handler =>
    draft.replace ((draft.builder.registerClockSpec partition spec handler).map (·.2))
  | .unregisterClock partition handle =>
    draft.replace ((draft.builder.unregisterClock partition handle).map (·.2))
  | .addParticipant partition participant =>
    draft.replace (draft.builder.addParticipant partition participant)

theorem replace_cases (draft : Draft M) {x : Except ConfigError (Builder M)}
    (hx : ∀ b, x = .ok b → ∃ (i : PartitionId) (setup next : PartitionSetup M),
      draft.builder.setups[i]? = some setup ∧ b = draft.builder.withSetup i next ∧
        next.receivers = setup.receivers) :
    draft.replace x = draft ∨ ∃ (i : PartitionId) (setup next : PartitionSetup M),
      draft.builder.setups[i]? = some setup ∧ next.receivers = setup.receivers ∧
        draft.replace x = { draft with builder := draft.builder.withSetup i next } := by
  cases x with
  | error e => exact Or.inl rfl
  | ok b =>
    obtain ⟨i, setup, next, hi, rfl, hreceivers⟩ := hx b rfl
    exact Or.inr ⟨i, setup, next, hi, hreceivers, rfl⟩

/-- A builder is asked for a link end, or refuses, or replaces a setup by one with the same
receivers. -/
theorem call_cases (draft : Draft M) (c : Builder.Call M) :
    (∃ partition name latency receiver,
      draft.call c = draft.addEnd partition name latency receiver) ∨
    draft.call c = draft ∨ ∃ (i : PartitionId) (setup next : PartitionSetup M),
      draft.builder.setups[i]? = some setup ∧ next.receivers = setup.receivers ∧
        draft.call c = { draft with builder := draft.builder.withSetup i next } := by
  have hclock : ∀ {partition period handler b},
      (draft.builder.registerClock partition period handler).map (·.2) = .ok b →
        ∃ (i : PartitionId) (setup next : PartitionSetup M),
          draft.builder.setups[i]? = some setup ∧ b = draft.builder.withSetup i next ∧
            next.receivers = setup.receivers := by
    intro partition period handler b hok
    obtain ⟨handle, hok⟩ := map_snd_eq_ok hok
    obtain ⟨setup, hsetup, rfl⟩ := Builder.registerClock_eq_ok hok
    exact ⟨partition, setup, _, hsetup, rfl, rfl⟩
  cases c with
  | addLink partition name latency receiver => exact Or.inl ⟨_, _, _, _, rfl⟩
  | addOutputLink partition name latency => exact Or.inl ⟨_, _, _, _, rfl⟩
  | scheduleEvent linkEnd time payload priority =>
    refine Or.inr (draft.replace_cases fun b hok => ?_)
    obtain ⟨setup, hsetup, rfl⟩ := Builder.scheduleEvent_eq_ok hok
    exact ⟨linkEnd.partition, setup, _, hsetup, rfl, rfl⟩
  | registerClock partition period handler =>
    exact Or.inr (draft.replace_cases fun b hok => hclock hok)
  | registerClockSpec partition spec handler =>
    refine Or.inr (draft.replace_cases fun b hok => ?_)
    obtain ⟨handle, hok⟩ := map_snd_eq_ok hok
    obtain ⟨_, _, hok⟩ := bind_eq_ok_iff.mp hok
    obtain ⟨period, _, hok⟩ := bind_eq_ok_iff.mp hok
    exact hclock (by rw [hok]; rfl)
  | unregisterClock partition handle =>
    refine Or.inr (draft.replace_cases fun b hok => ?_)
    obtain ⟨empty, hok⟩ := map_snd_eq_ok hok
    obtain ⟨setup, clocks, hsetup, _, rfl⟩ := Builder.unregisterClock_eq_ok hok
    exact ⟨partition, setup, _, hsetup, rfl, rfl⟩
  | addParticipant partition participant =>
    refine Or.inr (draft.replace_cases fun b hok => ?_)
    obtain ⟨setup, hsetup, rfl⟩ := Builder.addParticipant_eq_ok hok
    exact ⟨partition, setup, _, hsetup, rfl, rfl⟩

end Draft

namespace Builder

variable {b : Builder M} {partition : PartitionId}

theorem addEnd_refused (h : b.partitions ≤ partition) (name : String) (latency : Nat)
    (receiver : Option M.Receiver) :
    b.addEnd partition name latency receiver =
      .error (.partitionOutOfRange partition b.partitions) := by
  have hnone : b.setups[partition]? = none := List.getElem?_eq_none h
  unfold addEnd setup
  rw [hnone]
  rfl

def nextEnd (b : Builder M) (partition : PartitionId) : LinkEnd :=
  ⟨partition, (b.table partition).nextLink⟩

def pushed (b : Builder M) (partition : PartitionId) (name : String) (latency : Nat) :
    List RouteTable :=
  b.tables.set partition ((b.table partition).push name latency)

def withEnd (b : Builder M) (partition : PartitionId) (setup : PartitionSetup M)
    (receiver : Option M.Receiver) (registry : Registry) (tables : List RouteTable) : Builder M :=
  { b with
    setups := b.setups.set partition { setup with receivers := setup.receivers ++ [receiver] }
    registry, tables }

section

variable {setup : PartitionSetup M} {receiver : Option M.Receiver} {registry : Registry}
  {tables : List RouteTable}

@[simp] theorem registry_withEnd :
    (b.withEnd partition setup receiver registry tables).registry = registry := rfl

@[simp] theorem tables_withEnd :
    (b.withEnd partition setup receiver registry tables).tables = tables := rfl

end

theorem addEnd_of_register {setup : PartitionSetup M} {name : String} {latency : Nat}
    {registration : Registration} {registry : Registry} {tables : List RouteTable}
    (hsetup : b.setups[partition]? = some setup)
    (hregister : b.registry.register (b.pushed partition name latency) name
      (b.nextEnd partition) = .ok (registration, registry, tables))
    (receiver : Option M.Receiver) :
    b.addEnd partition name latency receiver =
      .ok (b.nextEnd partition, b.withEnd partition setup receiver registry tables) := by
  have hok : b.setup partition = .ok setup := by
    unfold Builder.setup
    rw [hsetup]
  have hmapped := mapError_eq_ok_iff (f := ConfigError.link) |>.mpr hregister
  unfold nextEnd pushed at hmapped
  unfold addEnd
  rw [hok]
  simp only [bind, Except.bind, hmapped]
  rfl

end Builder

/-! ## What holds of a draft -/

def Draft.ends (draft : Draft M) : List LinkEnd := draft.added.map fun a => a.linkEnd

theorem Draft.ends_concat (builder : Builder M) (added : List (Addition M)) (a : Addition M) :
    Draft.ends ⟨builder, added ++ [a]⟩ = (added.map fun a => a.linkEnd) ++ [a.linkEnd] :=
  List.map_append

/-- These pairs are wired, and all other link ends wait. -/
structure Draft.Paired (draft : Draft M) (pairs : List (LinkEnd × LinkEnd)) : Prop where
  wiring : Wiring draft.builder.tables draft.builder.registry.pending
  size : draft.builder.tables.length = draft.builder.setups.length
  named : ∀ a ∈ draft.added, ∃ route, routeAt draft.builder.tables a.linkEnd = some route ∧
    route.name = a.name
  known : ∀ (e : LinkEnd) (route : Route), routeAt draft.builder.tables e = some route →
    e ∈ draft.ends
  distinct : draft.ends.Nodup
  order : draft.builder.registry.pending.Sublist (draft.added.map fun a => (a.name, a.linkEnd))
  odd : ∀ name, name ∈ draft.builder.registry.pendingNames ↔
    (draft.added.countP fun a => a.name == name) % 2 = 1
  count : pairs.length = draft.builder.registry.wired
  perm : draft.ends.Perm ((pairs.flatMap fun p => [p.1, p.2]) ++
    draft.builder.registry.pending.map fun entry => entry.2)
  peers : ∀ p ∈ pairs, Peers draft.builder.tables p.1 p.2
  handlers : ∀ a ∈ draft.added, ∃ setup, draft.builder.setups[a.linkEnd.partition]? = some setup ∧
    setup.receivers[a.linkEnd.link]? = some a.receiver
  slots : ∀ (j : Nat) (setup : PartitionSetup M), draft.builder.setups[j]? = some setup →
    draft.builder.tables[j]?.map RouteTable.size = some setup.receivers.length

namespace Draft.Paired

variable {draft : Draft M} {pairs : List (LinkEnd × LinkEnd)} {partition : PartitionId}
  {name : String} {latency : Nat} {receiver : Option M.Receiver}

/-- What was asked for is no link end. -/
theorem replace (h : draft.Paired pairs) {builder : Builder M}
    (htables : builder.tables = draft.builder.tables)
    (hregistry : builder.registry = draft.builder.registry)
    (hlength : builder.setups.length = draft.builder.setups.length)
    (hreceivers : ∀ (j : Nat) (setup : PartitionSetup M), builder.setups[j]? = some setup →
      ∃ old, draft.builder.setups[j]? = some old ∧ old.receivers = setup.receivers) :
    Paired { draft with builder } pairs where
  wiring := by rw [htables, hregistry]; exact h.wiring
  size := by rw [htables, hlength]; exact h.size
  named := by rw [htables]; exact h.named
  known := by rw [htables]; exact h.known
  distinct := h.distinct
  order := by rw [hregistry]; exact h.order
  odd := by rw [hregistry]; exact h.odd
  count := by rw [hregistry]; exact h.count
  perm := by rw [hregistry]; exact h.perm
  peers := by rw [htables]; exact h.peers
  handlers := by
    intro a ha
    obtain ⟨old, hold, hslot⟩ := h.handlers a ha
    have hlt : a.linkEnd.partition < builder.setups.length := by
      rw [hlength]
      exact (List.getElem?_eq_some_iff.mp hold).1
    have hsetup := List.getElem?_eq_getElem hlt
    obtain ⟨other, hother, hsame⟩ := hreceivers _ _ hsetup
    rw [hold] at hother
    cases hother
    exact ⟨_, hsetup, hsame ▸ hslot⟩
  slots := by
    intro j setup hj
    obtain ⟨old, hold, hsame⟩ := hreceivers j setup hj
    rw [htables, ← hsame]
    exact h.slots j old hold

theorem withSetup (h : draft.Paired pairs) {i : PartitionId} {setup setup' : PartitionSetup M}
    (hi : draft.builder.setups[i]? = some setup) (hreceivers : setup'.receivers = setup.receivers) :
    Paired { draft with builder := draft.builder.withSetup i setup' } pairs := by
  refine h.replace rfl rfl (List.length_set ..) (forall_set (fun j x _ hx => ⟨x, hx, rfl⟩) ?_)
  exact ⟨setup, hi, hreceivers.symm⟩

theorem table_eq (h : draft.Paired pairs) (hlt : partition < draft.builder.setups.length) :
    draft.builder.tables[partition]? = some (draft.builder.table partition) := by
  have hlt' : partition < draft.builder.tables.length := h.size ▸ hlt
  unfold Builder.table
  rw [List.getElem?_eq_getElem hlt']
  rfl

theorem mem_ends (h : draft.Paired pairs) {e : LinkEnd} :
    e ∈ draft.ends ↔ ∃ route, routeAt draft.builder.tables e = some route := by
  constructor
  · intro he
    obtain ⟨a, ha, rfl⟩ := List.mem_map.mp he
    obtain ⟨route, hroute, _⟩ := h.named a ha
    exact ⟨route, hroute⟩
  · rintro ⟨route, hroute⟩
    exact h.known e route hroute

/-! ### A new end -/

section

variable {setup : PartitionSetup M} {registry : Registry} {tables : List RouteTable}
  {pairs' : List (LinkEnd × LinkEnd)} {f peer : LinkEnd} {route : Route}

theorem ne_nextEnd (h : draft.Paired pairs) (hlt : partition < draft.builder.setups.length)
    (hf : routeAt draft.builder.tables f = some route) :
    f ≠ draft.builder.nextEnd partition := by
  rintro rfl
  rw [Builder.nextEnd, (h.wiring.push (h.table_eq hlt) "" 0).2.1] at hf
  cases hf

/-- The new end has the next free place, and is not wired. -/
theorem pushed (h : draft.Paired pairs) (hlt : partition < draft.builder.setups.length)
    (name : String) (latency : Nat) :
    Wiring (draft.builder.pushed partition name latency) draft.builder.registry.pending ∧
      routeAt (draft.builder.pushed partition name latency) (draft.builder.nextEnd partition) =
        some { name := name, latency := latency } := by
  obtain ⟨hpushed, _, hnew⟩ := h.wiring.push (h.table_eq hlt) name latency
  exact ⟨hpushed, hnew⟩

theorem routeAt_pushed (h : draft.Paired pairs) (hlt : partition < draft.builder.setups.length)
    (hf : routeAt draft.builder.tables f = some route) :
    routeAt (draft.builder.pushed partition name latency) f = some route :=
  (routeAt_push (h.table_eq hlt) name latency f).trans ((if_neg (h.ne_nextEnd hlt hf)).trans hf)

theorem waits_ne_nextEnd (h : draft.Paired pairs)
    (hlt : partition < draft.builder.setups.length) :
    ∀ entry ∈ draft.builder.registry.pending, entry.2 ≠ draft.builder.nextEnd partition := by
  intro entry hentry
  obtain ⟨_, hroute, _⟩ := h.wiring.waiting entry.1 entry.2 hentry
  exact h.ne_nextEnd hlt hroute

theorem slot_eq (h : draft.Paired pairs) (hsetup : draft.builder.setups[partition]? = some setup) :
    (draft.builder.table partition).size = setup.receivers.length := by
  have hslots := h.slots partition setup hsetup
  rw [h.table_eq (List.getElem?_eq_some_iff.mp hsetup).1] at hslots
  exact Option.some.inj hslots

theorem handlers_withEnd (h : draft.Paired pairs)
    (hsetup : draft.builder.setups[partition]? = some setup) {a : Addition M}
    (ha : a ∈ draft.added ++ [⟨name, draft.builder.nextEnd partition, receiver⟩]) :
    ∃ other, (draft.builder.withEnd partition setup receiver registry
        tables).setups[a.linkEnd.partition]? = some other ∧
      other.receivers[a.linkEnd.link]? = some a.receiver := by
  obtain ⟨hlt, _⟩ := List.getElem?_eq_some_iff.mp hsetup
  rcases List.mem_append.mp ha with ha | ha
  · obtain ⟨old, hold, hreceiver⟩ := h.handlers a ha
    by_cases hi : partition = a.linkEnd.partition
    · rw [← hi, hsetup] at hold
      cases hold
      refine ⟨_, by rw [← hi]; exact List.getElem?_set_self hlt, ?_⟩
      exact (List.getElem?_append_left (List.getElem?_eq_some_iff.mp hreceiver).1).trans hreceiver
    · exact ⟨old, (List.getElem?_set_ne hi).trans hold, hreceiver⟩
  · obtain rfl := List.mem_singleton.mp ha
    refine ⟨_, List.getElem?_set_self hlt, ?_⟩
    simp [Builder.nextEnd, RouteTable.nextLink, h.slot_eq hsetup]

theorem slots_withEnd (h : draft.Paired pairs)
    (hsetup : draft.builder.setups[partition]? = some setup) {j : Nat} {other : PartitionSetup M}
    (hj : (draft.builder.withEnd partition setup receiver registry tables).setups[j]? =
      some other) :
    (draft.builder.pushed partition name latency)[j]?.map RouteTable.size =
      some other.receivers.length := by
  obtain ⟨hlt, _⟩ := List.getElem?_eq_some_iff.mp hsetup
  unfold Builder.withEnd at hj
  unfold Builder.pushed
  by_cases hij : partition = j
  · subst hij
    rw [List.getElem?_set_self hlt] at hj
    cases hj
    rw [List.getElem?_set_self (h.size ▸ hlt)]
    simp [h.slot_eq hsetup]
  · rw [List.getElem?_set_ne hij] at hj ⊢
    exact h.slots j other hj

/-- The tables name the ends as before, and the new one by its name. -/
theorem name_eq (h : draft.Paired pairs) (hlt : partition < draft.builder.setups.length)
    (hnames : ∀ f, (routeAt tables f).map Route.name =
      (routeAt (draft.builder.pushed partition name latency) f).map Route.name) (f : LinkEnd) :
    (routeAt tables f).map Route.name =
      if f = draft.builder.nextEnd partition then some name
      else (routeAt draft.builder.tables f).map Route.name := by
  have hroute : routeAt (draft.builder.pushed partition name latency) f =
      if f = draft.builder.nextEnd partition then some { name := name, latency := latency }
      else routeAt draft.builder.tables f := routeAt_push (h.table_eq hlt) name latency f
  rw [hnames, hroute]
  split <;> rfl

theorem length_eq_of_sizes {tables tables' : List RouteTable}
    (hsizes : ∀ j : Nat, tables[j]?.map RouteTable.size = tables'[j]?.map RouteTable.size) :
    tables.length = tables'.length := by
  have hmap : tables.map RouteTable.size = tables'.map RouteTable.size :=
    List.ext_getElem? fun j => by rw [List.getElem?_map, List.getElem?_map, hsizes]
  simpa using congrArg List.length hmap

theorem nodup_ends_concat (h : draft.Paired pairs)
    (hlt : partition < draft.builder.setups.length) :
    (draft.ends ++ [draft.builder.nextEnd partition]).Nodup := by
  refine List.nodup_append.mpr ⟨h.distinct, by simp, ?_⟩
  rintro f hf g hg rfl
  obtain ⟨route, hold⟩ := h.mem_ends.mp hf
  exact h.ne_nextEnd hlt hold (List.mem_singleton.mp hg)

/-- A link end is added, whatever comes of its registration: the tables are those with the new end,
but for what they say of where the ends lead, and of the names that wait the new one has changed. -/
theorem add (h : draft.Paired pairs) (latency : Nat)
    (hsetup : draft.builder.setups[partition]? = some setup)
    (hwiring : Wiring tables registry.pending)
    (hnames : ∀ f, (routeAt tables f).map Route.name =
      (routeAt (draft.builder.pushed partition name latency) f).map Route.name)
    (hsizes : ∀ j : Nat, tables[j]?.map RouteTable.size =
      (draft.builder.pushed partition name latency)[j]?.map RouteTable.size)
    (horder : registry.pending.Sublist
      ((draft.added.map fun a => (a.name, a.linkEnd)) ++
        [(name, draft.builder.nextEnd partition)]))
    (hwaiting : ∀ other, other ∈ registry.pendingNames ↔
      if name = other then other ∉ draft.builder.registry.pendingNames
      else other ∈ draft.builder.registry.pendingNames)
    (hcount : pairs'.length = registry.wired)
    (hperm : (draft.ends ++ [draft.builder.nextEnd partition]).Perm
      ((pairs'.flatMap fun p => [p.1, p.2]) ++ registry.pending.map fun entry => entry.2))
    (hpeers : ∀ p ∈ pairs', Peers tables p.1 p.2) :
    Draft.Paired ⟨draft.builder.withEnd partition setup receiver registry tables,
      draft.added ++ [⟨name, draft.builder.nextEnd partition, receiver⟩]⟩ pairs' := by
  obtain ⟨hlt, _⟩ := List.getElem?_eq_some_iff.mp hsetup
  constructor
  case wiring => exact hwiring
  case size =>
    simpa [length_eq_of_sizes hsizes, Builder.withEnd, Builder.pushed] using h.size
  case named =>
    intro a ha
    have hname := h.name_eq hlt hnames a.linkEnd
    rcases List.mem_append.mp ha with ha | ha
    · obtain ⟨route, hold, hsame⟩ := h.named a ha
      rw [if_neg (h.ne_nextEnd hlt hold), hold, Option.map_some, hsame] at hname
      exact Option.map_eq_some_iff.mp hname
    · obtain rfl := List.mem_singleton.mp ha
      rw [if_pos rfl] at hname
      exact Option.map_eq_some_iff.mp hname
  case known =>
    intro f route hf
    have hname := h.name_eq hlt hnames f
    rw [Builder.tables_withEnd] at hf
    rw [hf] at hname
    rw [Draft.ends_concat, List.mem_append, List.mem_singleton]
    split at hname
    · rename_i hnew
      exact Or.inr hnew
    · obtain ⟨old, hold, _⟩ := Option.map_eq_some_iff.mp hname.symm
      exact Or.inl (h.known f old hold)
  case distinct =>
    rw [Draft.ends_concat]
    exact h.nodup_ends_concat hlt
  case order => simpa using horder
  case odd =>
    intro other
    have hodd := h.odd other
    rw [Builder.registry_withEnd, hwaiting other, List.countP_append, List.countP_singleton]
    by_cases hother : name = other
    · simp only [hother, BEq.rfl, ↓reduceIte, hodd]
      omega
    · simpa [hother] using hodd
  case count => exact hcount
  case perm =>
    rw [Draft.ends_concat]
    exact hperm
  case peers => exact hpeers
  case handlers => exact fun a ha => h.handlers_withEnd hsetup ha
  case slots => exact fun j other hj => (hsizes j).trans (h.slots_withEnd hsetup hj)

/-- Nobody waits under its name: it waits itself. -/
theorem stash (h : draft.Paired pairs) (latency : Nat)
    (hsetup : draft.builder.setups[partition]? = some setup)
    (hnone : name ∉ draft.builder.registry.pendingNames) :
    Draft.Paired ⟨draft.builder.withEnd partition setup receiver
        { draft.builder.registry with
          pending := draft.builder.registry.pending ++ [(name, draft.builder.nextEnd partition)] }
        (draft.builder.pushed partition name latency),
      draft.added ++ [⟨name, draft.builder.nextEnd partition, receiver⟩]⟩ pairs := by
  obtain ⟨hlt, _⟩ := List.getElem?_eq_some_iff.mp hsetup
  obtain ⟨hpushed, hnew⟩ := h.pushed hlt name latency
  refine h.add latency hsetup ?_ (fun f => rfl) (fun j => rfl) ?_ ?_ h.count ?_ ?_
  · refine hpushed.stash hnew rfl rfl fun entry hentry hname => hnone ?_
    exact List.mem_map.mpr ⟨entry, hentry, hname⟩
  · exact h.order.append (List.Sublist.refl _)
  · intro other
    simp only [Registry.pendingNames, List.map_append, List.map_cons, List.map_nil,
      List.mem_append, List.mem_singleton] at hnone ⊢
    by_cases hother : name = other
    · subst hother
      simp [hnone]
    · simp [hother, Ne.symm hother]
  · simpa [List.append_assoc] using h.perm.append_right [draft.builder.nextEnd partition]
  · intro p hp
    obtain ⟨_, _, _, hfirst, hsecond, _⟩ := h.peers p hp
    exact (h.peers p hp).congr ((h.routeAt_pushed hlt hfirst).trans hfirst.symm)
      ((h.routeAt_pushed hlt hsecond).trans hsecond.symm)

/-- Somebody waits under its name: the two are wired to each other. -/
theorem pair (h : draft.Paired pairs) (latency : Nat)
    (hsetup : draft.builder.setups[partition]? = some setup)
    (hpeer : (name, peer) ∈ draft.builder.registry.pending) :
    Draft.Paired ⟨draft.builder.withEnd partition setup receiver
        { pending := draft.builder.registry.pending.eraseP fun entry => entry.1 == name,
          wired := draft.builder.registry.wired + 1 }
        (wire (wire (draft.builder.pushed partition name latency)
          (draft.builder.nextEnd partition) peer) peer (draft.builder.nextEnd partition)),
      draft.added ++ [⟨name, draft.builder.nextEnd partition, receiver⟩]⟩
      (pairs ++ [(peer, draft.builder.nextEnd partition)]) := by
  obtain ⟨hlt, _⟩ := List.getElem?_eq_some_iff.mp hsetup
  obtain ⟨hpushed, hnew⟩ := h.pushed hlt name latency
  obtain ⟨other, hother, hname, hunwired⟩ := h.wiring.waiting name peer hpeer
  have hne := h.ne_nextEnd hlt hother
  have hwire := routeAt_wire_wire hnew (h.routeAt_pushed hlt hother) hne.symm
  refine h.add latency hsetup ?_ ?_ ?_ ?_ ?_ ?_ ?_ ?_
  · exact hpushed.pair hnew rfl rfl (h.waits_ne_nextEnd hlt) hpeer
  · intro f
    rw [hwire]
    split
    · rename_i hf
      rw [hf, h.routeAt_pushed hlt hother]
      rfl
    · split
      · rename_i hf
        rw [hf, hnew]
        rfl
      · rfl
  · intro j
    rw [size_wire, size_wire]
  · exact (List.eraseP_sublist.trans h.order).trans (List.sublist_append_left ..)
  · intro used
    have hwaits : name ∈ draft.builder.registry.pendingNames :=
      List.mem_map_of_mem (f := fun entry => entry.1) hpeer
    unfold Registry.pendingNames at hwaits ⊢
    rw [Wiring.mem_names_eraseP h.wiring.names]
    by_cases hused : name = used
    · subst hused
      simp [hwaits]
    · simp [hused, Ne.symm hused]
  · simp [h.count]
  · have hsplit := Wiring.perm_eraseP h.wiring.names hpeer
    have hall := (h.perm.trans (hsplit.append_left _)).append_right
      [draft.builder.nextEnd partition]
    refine hall.trans ?_
    simp only [List.flatMap_append, List.flatMap_cons, List.flatMap_nil, List.append_nil,
      List.append_assoc, List.cons_append, List.nil_append]
    exact List.Perm.append_left _ (List.Perm.cons _ List.perm_append_comm)
  · intro p hp
    rcases List.mem_append.mp hp with hp | hp
    · -- The one that waited is not wired, so it is in none of the old pairs.
      have hidle : ∀ {f g}, Peers draft.builder.tables f g → f ≠ peer := by
        rintro f g hpeers rfl
        exact hpeers.not_unwired hother hunwired
      have hkept : ∀ {f g}, Peers draft.builder.tables f g → routeAt (wire (wire
          (draft.builder.pushed partition name latency) (draft.builder.nextEnd partition) peer)
            peer (draft.builder.nextEnd partition)) f = routeAt draft.builder.tables f := by
        intro f g hpeers
        obtain ⟨_, route, _, hf, _⟩ := id hpeers
        rw [hwire, if_neg (hidle hpeers), if_neg (h.ne_nextEnd hlt hf), h.routeAt_pushed hlt hf, hf]
      exact (h.peers p hp).congr (hkept (h.peers p hp)) (hkept (h.peers p hp).symm)
    · obtain rfl := List.mem_singleton.mp hp
      have hback := (hwire (draft.builder.nextEnd partition)).trans
        ((if_neg hne.symm).trans (if_pos rfl))
      exact ⟨hne, _, _, (hwire peer).trans (if_pos rfl), hback, hname.symm, rfl, rfl⟩

end

/-- A link end can be added to every partition that there is. If nobody waits under its name it
waits itself, and otherwise the two are wired to each other. -/
theorem addEnd_cases (h : draft.Paired pairs) (hlt : partition < draft.builder.partitions)
    (name : String) (latency : Nat) (receiver : Option M.Receiver) :
    ∃ setup, draft.builder.setups[partition]? = some setup ∧
      ((name ∉ draft.builder.registry.pendingNames ∧
        draft.builder.addEnd partition name latency receiver = .ok (draft.builder.nextEnd partition,
          draft.builder.withEnd partition setup receiver
            { draft.builder.registry with
              pending :=
                draft.builder.registry.pending ++ [(name, draft.builder.nextEnd partition)] }
            (draft.builder.pushed partition name latency))) ∨
      ∃ peer, (name, peer) ∈ draft.builder.registry.pending ∧
        draft.builder.addEnd partition name latency receiver = .ok (draft.builder.nextEnd partition,
          draft.builder.withEnd partition setup receiver
            { pending := draft.builder.registry.pending.eraseP fun entry => entry.1 == name,
              wired := draft.builder.registry.wired + 1 }
            (wire
              (wire (draft.builder.pushed partition name latency)
                (draft.builder.nextEnd partition) peer)
              peer (draft.builder.nextEnd partition)))) := by
  have hsetup := List.getElem?_eq_getElem (show partition < draft.builder.setups.length from hlt)
  obtain ⟨hpushed, hnew⟩ := h.pushed hlt name latency
  have hregister := hpushed.register_eq name hnew (h.waits_ne_nextEnd hlt)
  refine ⟨_, hsetup, ?_⟩
  cases hstashed : draft.builder.registry.stashed? name with
  | none =>
    rw [hstashed] at hregister
    exact Or.inl ⟨h.wiring.stashed?_eq_none_iff.mp hstashed,
      Builder.addEnd_of_register hsetup hregister receiver⟩
  | some peer =>
    rw [hstashed] at hregister
    exact Or.inr ⟨peer, Wiring.stashed_mem hstashed,
      Builder.addEnd_of_register hsetup hregister receiver⟩

theorem addEnd (h : draft.Paired pairs) (hlt : partition < draft.builder.partitions)
    (name : String) (latency : Nat) (receiver : Option M.Receiver) :
    ∃ b pairs', draft.builder.addEnd partition name latency receiver =
        .ok (draft.builder.nextEnd partition, b) ∧
      Draft.Paired ⟨b, draft.added ++ [⟨name, draft.builder.nextEnd partition, receiver⟩]⟩
        pairs' := by
  obtain ⟨setup, hsetup, ⟨hnone, hok⟩ | ⟨peer, hpeer, hok⟩⟩ :=
    h.addEnd_cases hlt name latency receiver
  · exact ⟨_, pairs, hok, h.stash latency hsetup hnone⟩
  · exact ⟨_, _, hok, h.pair latency hsetup hpeer⟩

/-- Whatever a builder is asked for, its link ends are in pairs or wait. -/
theorem call (h : draft.Paired pairs) (c : Builder.Call M) :
    ∃ pairs', (draft.call c).Paired pairs' := by
  rcases draft.call_cases c with ⟨partition, name, latency, receiver, hcall⟩ | hcall |
    ⟨i, setup, next, hsetup, hreceivers, hcall⟩
  · rw [hcall]
    unfold Draft.addEnd
    by_cases hlt : partition < draft.builder.partitions
    · obtain ⟨b, pairs', hok, hpaired⟩ := h.addEnd hlt name latency receiver
      rw [hok]
      exact ⟨pairs', hpaired⟩
    · rw [Builder.addEnd_refused (Nat.le_of_not_lt hlt)]
      exact ⟨pairs, h⟩
  · rw [hcall]
    exact ⟨pairs, h⟩
  · rw [hcall]
    exact ⟨pairs, h.withSetup hsetup hreceivers⟩

theorem start {config : Config} {b : Builder M} (h : Builder.ofConfig config = .ok b) :
    Draft.Paired ⟨b, []⟩ [] := by
  have hsound := Builder.sound_ofConfig h
  have hroutes := Builder.routeAt_ofConfig h
  obtain ⟨_, _, _, rfl⟩ := Builder.ofConfig_eq_ok h
  exact {
    wiring := hsound.wiring
    size := hsound.size
    named := fun a ha => by cases ha
    known := fun e route he => by rw [hroutes] at he; cases he
    distinct := List.nodup_nil
    order := List.Sublist.refl _
    odd := fun name => by simp [Registry.pendingNames]
    count := rfl
    perm := List.Perm.refl _
    peers := fun p hp => by cases hp
    handlers := fun a ha => by cases ha
    slots := by
      intro j setup hj
      obtain ⟨hlt, rfl⟩ := List.getElem?_eq_some_iff.mp hj
      have hlt' : j < config.partitions := by simpa using hlt
      simp [RouteTable.size, hlt'] }

theorem calls (h : draft.Paired pairs) (calls : List (Builder.Call M)) :
    ∃ pairs', (calls.foldl Draft.call draft).Paired pairs' := by
  induction calls generalizing draft pairs with
  | nil => exact ⟨pairs, h⟩
  | cons c calls ih =>
    obtain ⟨pairs', h'⟩ := h.call c
    exact ih h'

theorem exists_peer (h : draft.Paired pairs) {e : LinkEnd} {route : Route}
    (he : routeAt draft.builder.tables e = some route) (hwired : route.delivery ≠ .unwired) :
    ∃ f, Peers draft.builder.tables e f := by
  rcases List.mem_append.mp (h.perm.mem_iff.mp (h.known e route he)) with hmem | hmem
  · obtain ⟨p, hp, hmem⟩ := List.mem_flatMap.mp hmem
    have hpeers := h.peers p hp
    simp only [List.mem_cons, List.not_mem_nil, or_false] at hmem
    rcases hmem with rfl | rfl
    · exact ⟨p.2, hpeers⟩
    · exact ⟨p.1, hpeers.symm⟩
  · obtain ⟨⟨name, f⟩, hentry, rfl⟩ := List.mem_map.mp hmem
    obtain ⟨other, hother, _, hunwired⟩ := h.wiring.waiting name f hentry
    rw [he] at hother
    cases hother
    exact absurd hunwired hwired

theorem unwired_iff (h : draft.Paired pairs) {e : LinkEnd} {route : Route}
    (he : routeAt draft.builder.tables e = some route) :
    route.delivery = .unwired ↔ draft.builder.registry.stashed? route.name = some e := by
  rw [h.wiring.stashed?_eq_some_iff]
  constructor
  · intro hunwired
    rcases List.mem_append.mp (h.perm.mem_iff.mp (h.known e route he)) with hmem | hmem
    · obtain ⟨p, hp, hmem⟩ := List.mem_flatMap.mp hmem
      have hpeers := h.peers p hp
      simp only [List.mem_cons, List.not_mem_nil, or_false] at hmem
      rcases hmem with rfl | rfl
      · exact absurd hunwired (hpeers.not_unwired he)
      · exact absurd hunwired (hpeers.symm.not_unwired he)
    · obtain ⟨⟨name, f⟩, hentry, rfl⟩ := List.mem_map.mp hmem
      obtain ⟨other, hother, rfl, _⟩ := h.wiring.waiting name f hentry
      rw [he] at hother
      cases hother
      exact hentry
  · intro hmem
    obtain ⟨other, hother, _, hunwired⟩ := h.wiring.waiting _ e hmem
    rw [he] at hother
    cases hother
    exact hunwired

theorem nodup_entries (h : draft.Paired pairs) :
    (draft.added.map fun a => (a.name, a.linkEnd)).Nodup := by
  refine List.pairwise_map.mpr ((List.pairwise_map.mp h.distinct).imp fun hne heq => ?_)
  exact hne (congrArg Prod.snd heq)

theorem pending_eq (h : draft.Paired pairs) :
    draft.builder.registry.pending = (draft.added.map fun a => (a.name, a.linkEnd)).filter
      fun entry => draft.builder.registry.stashed? entry.1 == some entry.2 := by
  refine eq_filter_of_sublist h.order h.nodup_entries fun entry _ => ?_
  rw [beq_iff_eq, h.wiring.stashed?_eq_some_iff]

end Draft.Paired

/-! ## Simulations -/

def Simulation.tables (simulation : Simulation M) : List RouteTable :=
  simulation.partitions.map fun p => p.routes

/-- The link ends of a simulation are those of its builder. -/
theorem Builder.tables_build {b : Builder M} {simulation : Simulation M}
    (hsize : b.tables.length = b.setups.length) (h : b.build = .ok simulation) :
    simulation.tables = b.tables := by
  obtain ⟨_, window, _, rfl⟩ := Builder.build_eq_ok h
  refine List.ext_getElem? fun i => ?_
  unfold Simulation.tables
  rw [List.getElem?_map, List.getElem?_mapIdx]
  by_cases hi : i < b.setups.length
  · rw [List.getElem?_eq_getElem hi]
    simp [Builder.partition, Builder.table, List.getElem?_eq_getElem (hsize ▸ hi)]
  · rw [List.getElem?_eq_none (Nat.le_of_not_lt hi),
      List.getElem?_eq_none (Nat.le_of_not_lt (hsize ▸ hi))]
    rfl

/-! ## The main result -/

structure Draft.PairedUp (draft : Draft M) : Prop where
  /-- Every partition takes every link end, under the next free number; there are no others. -/
  answers : ∀ partition name latency receiver,
    (partition < draft.builder.partitions → ∃ b,
      draft.builder.addEnd partition name latency receiver =
        .ok (⟨partition, (draft.builder.table partition).size⟩, b)) ∧
    (draft.builder.partitions ≤ partition →
      draft.builder.addEnd partition name latency receiver =
        .error (.partitionOutOfRange partition draft.builder.partitions))
  /-- The link ends are those that were added, each of them once. -/
  ends : ∀ e, (∃ route, routeAt draft.builder.tables e = some route) ↔ e ∈ draft.ends
  distinct : draft.ends.Nodup
  named : ∀ a ∈ draft.added, ∀ route, routeAt draft.builder.tables a.linkEnd = some route →
    route.name = a.name
  /-- A link end is not wired exactly if it is the one stashed under its name. -/
  unwired : ∀ e route, routeAt draft.builder.tables e = some route →
    (route.delivery = .unwired ↔ draft.builder.registry.stashed? route.name = some e)
  /-- Every other one has a peer. -/
  wired : ∀ e route, routeAt draft.builder.tables e = some route → route.delivery ≠ .unwired →
    ∃ f, Peers draft.builder.tables e f
  /-- It stays within a partition exactly if its peer is in the same one. -/
  within : ∀ e f route, Peers draft.builder.tables e f →
    routeAt draft.builder.tables e = some route →
      (∀ link, route.delivery = .within link ↔ e.partition = f.partition ∧ link = f.link) ∧
      (∀ peer, route.delivery = .across peer ↔ e.partition ≠ f.partition ∧ peer = f)
  /-- At most one end waits under a name, and one does exactly if it was used an odd number of
  times. -/
  single : draft.builder.registry.pendingNames.Nodup
  odd : ∀ name, name ∈ draft.builder.registry.pendingNames ↔
    (draft.added.countP fun a => a.name == name) % 2 = 1
  /-- The names that wait are in the order in which their ends were added. -/
  order : draft.builder.registry.pendingNames = (draft.added.filter fun a =>
    draft.builder.registry.stashed? a.name == some a.linkEnd).map fun a => a.name
  /-- The first of them is reported. -/
  finalize : (draft.builder.registry.finalize = .ok () ↔
      draft.builder.registry.pendingNames = []) ∧
    ∀ name, draft.builder.registry.finalize = .error (.unmatched name) ↔
      draft.builder.registry.pendingNames.head? = some name
  /-- As many pairs are counted as there are. -/
  counted : ∃ pairs : List (LinkEnd × LinkEnd), pairs.length = draft.builder.registry.wired ∧
    (∀ p ∈ pairs, Peers draft.builder.tables p.1 p.2) ∧
    draft.ends.Perm ((pairs.flatMap fun p => [p.1, p.2]) ++
      draft.builder.registry.pending.map fun entry => entry.2)
  /-- Every link end has its slot with the handler that it was given. -/
  slots : ∀ (j : Nat) (setup : PartitionSetup M), draft.builder.setups[j]? = some setup →
    (draft.builder.table j).size = setup.receivers.length
  handlers : ∀ a ∈ draft.added, ∃ setup, draft.builder.setups[a.linkEnd.partition]? = some setup ∧
    setup.receivers[a.linkEnd.link]? = some a.receiver
  /-- In a simulation nobody waits. -/
  built : ∀ simulation, draft.builder.build = .ok simulation → ∀ e route,
    routeAt simulation.tables e = some route → ∃ f, Peers simulation.tables e f

theorem Draft.Paired.pairedUp {draft : Draft M} {pairs : List (LinkEnd × LinkEnd)}
    (h : draft.Paired pairs) : draft.PairedUp where
  answers partition name latency receiver := by
    refine ⟨fun hlt => ?_, fun hle => Builder.addEnd_refused hle name latency receiver⟩
    obtain ⟨b, _, hok, _⟩ := h.addEnd hlt name latency receiver
    exact ⟨b, hok⟩
  ends e := h.mem_ends.symm
  distinct := h.distinct
  named a ha route hroute := by
    obtain ⟨other, hother, hname⟩ := h.named a ha
    rw [hroute] at hother
    cases hother
    exact hname
  unwired e route he := h.unwired_iff he
  wired e route he hwired := h.exists_peer he hwired
  within e f route hpeers he := by
    rw [hpeers.delivery_eq he]
    exact ⟨fun _ => Delivery.between_eq_within_iff, fun _ => Delivery.between_eq_across_iff⟩
  single := h.wiring.names
  odd := h.odd
  order := by
    unfold Registry.pendingNames
    rw [h.pending_eq, List.filter_map, List.map_map]
    rfl
  finalize := by
    unfold Registry.finalize
    cases draft.builder.registry.pendingNames with
    | nil => simp
    | cons name rest => simp [eq_comm]
  counted := ⟨pairs, h.count, h.peers, h.perm⟩
  slots j setup hj := h.slot_eq hj
  handlers := h.handlers
  built simulation hbuild e route he := by
    have htables := Builder.tables_build h.size hbuild
    rw [htables] at he ⊢
    refine h.exists_peer he fun hunwired => ?_
    have hmem := Wiring.stashed_mem ((h.unwired_iff he).mp hunwired)
    rw [(Builder.build_eq_ok hbuild).1] at hmem
    cases hmem

/-- Whatever a builder is asked for, and whatever of that is refused, its link ends are in pairs
that lead to each other, apart from one end of each name that was used an odd number of times. -/
theorem Draft.ends_pair_up {config : Config} {b : Builder M} (h : Builder.ofConfig config = .ok b)
    (calls : List (Builder.Call M)) : (calls.foldl Draft.call ⟨b, []⟩).PairedUp := by
  obtain ⟨pairs, hpaired⟩ := (Draft.Paired.start h).calls calls
  exact hpaired.pairedUp

/-- The ends of a relay find each other, a third end waits in the first partition, and one that is
asked of a fourth partition is refused. -/
theorem Draft.ends_pair_up_relay :
    Builder.ofConfig { partitions := 2 } = .ok Relay.blank ∧
    ∃ draft : Draft Ring.model,
      draft = List.foldl Draft.call ⟨Relay.blank, []⟩
        [.addLink 0 "relay" 2 Relay.runner, .addOutputLink 0 "spare" 1,
          .addOutputLink 3 "relay" 1, .addLink 1 "relay" 2 Relay.runner] ∧
      draft.PairedUp ∧ draft.ends = [⟨0, 0⟩, ⟨0, 1⟩, ⟨1, 0⟩] ∧
      Peers draft.builder.tables ⟨0, 0⟩ ⟨1, 0⟩ ∧ draft.builder.registry.wired = 1 ∧
      draft.builder.registry.finalize = .error (.unmatched "spare") := by
  have hblank : Builder.ofConfig { partitions := 2 } = .ok Relay.blank := rfl
  exact ⟨hblank, _, rfl, Draft.ends_pair_up hblank _, rfl,
    ⟨by decide, _, _, rfl, rfl, rfl, rfl, rfl⟩, rfl, rfl⟩

end Lookahead

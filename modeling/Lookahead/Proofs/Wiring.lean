import Lookahead.Link.Registry

/-!
How the link ends of a simulation under construction are wired.

Wherever sends on a link end go, there is a link end of the same name, and sends on that one come
back. An end that waits in the registry is not wired, and there is at most one for each name.
-/

namespace Lookahead

section

variable {ε ε' α β : Type} {x : Except ε α} {a : α}

/-- What comes to a result has come to one in its first part. -/
theorem bind_eq_ok_iff {f : α → Except ε β} {b : β} :
    (x >>= f) = .ok b ↔ ∃ a, x = .ok a ∧ f a = .ok b := by
  constructor
  · intro h
    cases x with
    | error e => cases h
    | ok a => exact ⟨a, rfl, h⟩
  · rintro ⟨a, rfl, h⟩
    exact h

theorem mapError_eq_ok_iff {f : ε → ε'} : x.mapError f = .ok a ↔ x = .ok a := by
  constructor
  · intro h
    cases x with
    | error e => cases h
    | ok b =>
      cases h
      rfl
  · rintro rfl
    rfl

end

def Delivery.leads (e : LinkEnd) : Delivery → Option LinkEnd
  | .unwired => none
  | .within link => some ⟨e.partition, link⟩
  | .across peer => some peer

@[simp] theorem Delivery.leads_between (e f : LinkEnd) :
    (Delivery.between e f).leads e = some f := by
  unfold Delivery.between
  split
  · rename_i h
    simp [leads, h]
  · rfl

theorem Delivery.between_ne_unwired (e f : LinkEnd) : Delivery.between e f ≠ .unwired := by
  unfold Delivery.between
  split <;> exact fun h => by cases h

theorem Delivery.leads_of_ne {d : Delivery} (h : d ≠ .unwired) (e : LinkEnd) :
    ∃ f, d.leads e = some f := by
  cases d with
  | unwired => exact absurd rfl h
  | within link => exact ⟨_, rfl⟩
  | across peer => exact ⟨_, rfl⟩

theorem Delivery.between_eq_across {e f peer : LinkEnd} (h : Delivery.between e f = .across peer) :
    peer = f ∧ peer.partition ≠ e.partition := by
  unfold Delivery.between at h
  split at h
  · cases h
  · rename_i hne
    cases h
    exact ⟨rfl, fun heq => hne heq.symm⟩

def routeAt (tables : List RouteTable) (e : LinkEnd) : Option Route :=
  tables[e.partition]?.bind fun table => table.routes[e.link]?

/-- Wiring one end changes the delivery of that end and nothing else. -/
theorem routeAt_wire (tables : List RouteTable) (source target e : LinkEnd) :
    routeAt (wire tables source target) e =
      if e = source then
        (routeAt tables source).map fun route =>
          { route with delivery := Delivery.between source target }
      else routeAt tables e := by
  obtain ⟨i, link⟩ := source
  obtain ⟨j, other⟩ := e
  unfold routeAt wire
  rw [List.getElem?_modify]
  by_cases hij : i = j
  · subst hij
    cases htable : tables[i]? with
    | none => simp
    | some table =>
      by_cases hlink : link = other
      · subst hlink
        simp [RouteTable.setDelivery]
      · simp [RouteTable.setDelivery, hlink, Ne.symm hlink]
  · simp [hij, Ne.symm hij]

/-- Wiring two ends to each other changes their deliveries and nothing else. -/
theorem routeAt_wire_wire {tables : List RouteTable} {e peer : LinkEnd} {route other : Route}
    (he : routeAt tables e = some route) (hpeer : routeAt tables peer = some other)
    (hne : e ≠ peer) (f : LinkEnd) :
    routeAt (wire (wire tables e peer) peer e) f =
      if f = peer then some { other with delivery := Delivery.between peer e }
      else if f = e then some { route with delivery := Delivery.between e peer }
      else routeAt tables f := by
  rw [routeAt_wire, routeAt_wire, routeAt_wire]
  simp [he, hpeer, hne.symm]

/-- An end that is not wired afterwards has been left alone. -/
theorem routeAt_of_wire {tables : List RouteTable} {source target e : LinkEnd} {route : Route}
    (he : routeAt (wire tables source target) e = some route)
    (hunwired : route.delivery = .unwired) : e ≠ source ∧ routeAt tables e = some route := by
  rw [routeAt_wire] at he
  split at he
  · obtain ⟨_, _, rfl⟩ := Option.map_eq_some_iff.mp he
    exact absurd hunwired (Delivery.between_ne_unwired _ _)
  · rename_i hne
    exact ⟨hne, he⟩

/-- What wiring leaves as it is: which partition a table belongs to. -/
theorem ids_wire {tables : List RouteTable} (source target : LinkEnd)
    (hids : ∀ (j : Nat) (table : RouteTable), tables[j]? = some table → table.partition = j) :
    ∀ (j : Nat) (table : RouteTable), (wire tables source target)[j]? = some table →
      table.partition = j := by
  intro j table hj
  rw [wire, List.getElem?_modify] at hj
  obtain ⟨before, hbefore, rfl⟩ := Option.map_eq_some_iff.mp hj
  have hid := hids j before hbefore
  split <;> exact hid

/-- A new end is behind the others of its partition. -/
theorem routeAt_push {tables : List RouteTable} {i : Nat} {table : RouteTable}
    (hi : tables[i]? = some table) (name : String) (latency : Nat) (e : LinkEnd) :
    routeAt (tables.set i (table.push name latency)) e =
      if e = ⟨i, table.nextLink⟩ then some { name := name, latency := latency }
      else routeAt tables e := by
  obtain ⟨hlt, _⟩ := List.getElem?_eq_some_iff.mp hi
  obtain ⟨j, link⟩ := e
  unfold routeAt
  by_cases hij : i = j
  · subst hij
    rw [List.getElem?_set_self hlt, hi]
    simp only [Option.bind_some, RouteTable.push, RouteTable.nextLink, RouteTable.size,
      LinkEnd.mk.injEq, true_and]
    rw [List.getElem?_append]
    by_cases hlink : link = table.routes.length
    · simp [hlink]
    · by_cases hless : link < table.routes.length
      · simp [hless, hlink]
      · have hle := Nat.le_of_not_lt hless
        have hlt' := Nat.lt_of_le_of_ne hle (Ne.symm hlink)
        have hnone : table.routes[link]? = none := List.getElem?_eq_none hle
        have hbeyond := Nat.sub_ne_zero_of_lt hlt'
        simpa [hless, hlink, hnone] using hbeyond
  · rw [List.getElem?_set_ne hij]
    simp [Ne.symm hij]

/-- The link ends and those that wait for their other end. -/
structure Wiring (tables : List RouteTable) (pending : List (String × LinkEnd)) : Prop where
  ids : ∀ (j : Nat) (table : RouteTable), tables[j]? = some table → table.partition = j
  paired : ∀ (e f : LinkEnd) (route : Route), routeAt tables e = some route →
    route.delivery.leads e = some f →
      route.delivery = Delivery.between e f ∧
      ∃ back, routeAt tables f = some back ∧ back.name = route.name ∧
        back.delivery.leads f = some e
  waiting : ∀ (name : String) (e : LinkEnd), (name, e) ∈ pending →
    ∃ route, routeAt tables e = some route ∧ route.name = name ∧ route.delivery = .unwired
  names : (pending.map fun entry => entry.1).Nodup

namespace Wiring

variable {tables : List RouteTable} {pending : List (String × LinkEnd)} {name : String}

theorem not_mem_eraseP {pending : List (String × LinkEnd)} {name other : String} {e : LinkEnd}
    (hnames : (pending.map fun entry => entry.1).Nodup)
    (h : (other, e) ∈ pending.eraseP fun entry => entry.1 == name) : other ≠ name := by
  induction pending with
  | nil => simp at h
  | cons entry rest ih =>
    obtain ⟨hnot, hrest⟩ := List.nodup_cons.mp hnames
    by_cases hentry : entry.1 = name
    · rw [List.eraseP_cons_of_pos (by simpa using hentry)] at h
      rintro rfl
      apply hnot
      rw [show (fun entry : String × LinkEnd => entry.1) entry = other from hentry]
      exact (List.mem_map_of_mem (f := fun entry => entry.1) h)
    · rw [List.eraseP_cons_of_neg (by simpa using hentry)] at h
      rcases List.mem_cons.mp h with rfl | h
      · exact hentry
      · exact ih hrest h

theorem eq_of_name {pending : List (String × LinkEnd)} {e f : LinkEnd}
    (hnames : (pending.map fun entry => entry.1).Nodup) (he : (name, e) ∈ pending)
    (hf : (name, f) ∈ pending) : e = f := by
  induction pending with
  | nil => cases he
  | cons entry rest ih =>
    obtain ⟨hnot, hrest⟩ := List.nodup_cons.mp hnames
    have hfirst : ∀ g, entry.1 = name → (name, g) ∉ rest := by
      rintro g rfl hg
      exact hnot (List.mem_map_of_mem (f := fun entry => entry.1) hg)
    rcases List.mem_cons.mp he with he | he <;> rcases List.mem_cons.mp hf with hf | hf
    · exact congrArg Prod.snd (he.trans hf.symm)
    · exact absurd hf (hfirst f (by rw [← he]))
    · exact absurd he (hfirst e (by rw [← hf]))
    · exact ih hrest he hf

/-- A table gets one more end, which is not wired. -/
theorem push (h : Wiring tables pending) {i : Nat} {table : RouteTable}
    (hi : tables[i]? = some table) (name : String) (latency : Nat) :
    Wiring (tables.set i (table.push name latency)) pending ∧
      routeAt tables ⟨i, table.nextLink⟩ = none ∧
      routeAt (tables.set i (table.push name latency)) ⟨i, table.nextLink⟩ =
        some { name := name, latency := latency } := by
  obtain ⟨hlt, _⟩ := List.getElem?_eq_some_iff.mp hi
  have hfresh : routeAt tables ⟨i, table.nextLink⟩ = none := by
    simp [routeAt, hi, RouteTable.nextLink, RouteTable.size]
  have hroute := routeAt_push hi name latency
  refine ⟨⟨?_, ?_, ?_, h.names⟩, hfresh, by rw [hroute]; simp⟩
  · intro j other hj
    by_cases hij : i = j
    · subst hij
      rw [List.getElem?_set_self hlt] at hj
      cases hj
      exact h.ids i table hi
    · rw [List.getElem?_set_ne hij] at hj
      exact h.ids j other hj
  · intro e f route he hf
    rw [hroute] at he
    split at he
    · cases he
      cases hf
    · obtain ⟨hbetween, back, hback, hname, hreturn⟩ := h.paired e f route he hf
      refine ⟨hbetween, back, ?_, hname, hreturn⟩
      rw [hroute, if_neg]
      · exact hback
      · rintro rfl
        rw [hfresh] at hback
        cases hback
  · intro other e hmem
    obtain ⟨route, he, hname, hunwired⟩ := h.waiting other e hmem
    refine ⟨route, ?_, hname, hunwired⟩
    rw [hroute, if_neg]
    · exact he
    · rintro rfl
      rw [hfresh] at he
      cases he

/-- An end that is not wired begins to wait. -/
theorem stash (h : Wiring tables pending) {e : LinkEnd} {route : Route}
    (he : routeAt tables e = some route) (hname : route.name = name)
    (hunwired : route.delivery = .unwired)
    (hnew : ∀ entry ∈ pending, entry.1 ≠ name) : Wiring tables (pending ++ [(name, e)]) := by
  refine ⟨h.ids, h.paired, ?_, ?_⟩
  · intro other f hmem
    rcases List.mem_append.mp hmem with hmem | hmem
    · exact h.waiting other f hmem
    · simp only [List.mem_singleton, Prod.mk.injEq] at hmem
      obtain ⟨rfl, rfl⟩ := hmem
      exact ⟨route, he, hname, hunwired⟩
  · rw [List.map_append, List.nodup_append]
    refine ⟨h.names, by simp, ?_⟩
    intro a ha b hb hab
    obtain ⟨entry, hentry, rfl⟩ := List.mem_map.mp ha
    simp only [List.map_cons, List.map_nil, List.mem_singleton] at hb
    exact hnew entry hentry (hab.trans hb)

/-- Two ends of one name are wired, one of which has waited. -/
theorem pair (h : Wiring tables pending) {e peer : LinkEnd} {route : Route}
    (he : routeAt tables e = some route) (hname : route.name = name)
    (hunwired : route.delivery = .unwired) (hwaits : ∀ entry ∈ pending, entry.2 ≠ e)
    (hpeer : (name, peer) ∈ pending) :
    Wiring (wire (wire tables e peer) peer e)
      (pending.eraseP fun entry => entry.1 == name) := by
  obtain ⟨other, hother, hsame, hidle⟩ := h.waiting name peer hpeer
  have hne : e ≠ peer := fun heq => hwaits _ hpeer heq.symm
  have hroute := routeAt_wire_wire he hother hne
  have hkept : ∀ f back g, routeAt tables f = some back → back.delivery.leads f = some g →
      f ≠ e ∧ f ≠ peer := by
    rintro f back g hback hleads
    constructor
    · rintro rfl
      rw [he] at hback
      cases hback
      simp [hunwired, Delivery.leads] at hleads
    · rintro rfl
      rw [hother] at hback
      cases hback
      simp [hidle, Delivery.leads] at hleads
  refine ⟨?_, ?_, ?_, ?_⟩
  · exact ids_wire _ _ (ids_wire _ _ h.ids)
  · intro f g r hf hg
    rw [hroute] at hf
    split at hf
    · rename_i heq
      subst heq
      cases hf
      rw [Delivery.leads_between] at hg
      cases hg
      refine ⟨rfl, _, by rw [hroute, if_neg hne, if_pos rfl], ?_, Delivery.leads_between ..⟩
      exact hname.trans hsame.symm
    · split at hf
      · rename_i heq
        subst heq
        cases hf
        rw [Delivery.leads_between] at hg
        cases hg
        refine ⟨rfl, _, by rw [hroute, if_pos rfl], ?_, Delivery.leads_between ..⟩
        exact hsame.trans hname.symm
      · obtain ⟨hbetween, back, hback, hbackname, hreturn⟩ := h.paired f g r hf hg
        obtain ⟨hge, hgpeer⟩ := hkept g back f hback hreturn
        refine ⟨hbetween, back, ?_, hbackname, hreturn⟩
        rw [hroute, if_neg hgpeer, if_neg hge]
        exact hback
  · intro other' f hmem
    have hotherne := not_mem_eraseP h.names hmem
    have hbefore := List.mem_of_mem_eraseP hmem
    obtain ⟨r, hr, hrname, hrunwired⟩ := h.waiting other' f hbefore
    refine ⟨r, ?_, hrname, hrunwired⟩
    rw [hroute, if_neg, if_neg (hwaits _ hbefore)]
    · exact hr
    · rintro rfl
      rw [hother] at hr
      cases hr
      exact hotherne (hrname.symm.trans hsame)
  · exact (List.Sublist.map _ List.eraseP_sublist).nodup h.names

theorem stashed_mem {registry : Registry} {peer : LinkEnd}
    (h : registry.stashed? name = some peer) : (name, peer) ∈ registry.pending := by
  simp only [Registry.stashed?, Option.map_eq_some_iff] at h
  obtain ⟨entry, hfind, rfl⟩ := h
  have hentry : entry.1 = name := by simpa using List.find?_some hfind
  rw [← hentry]
  exact List.mem_of_find?_eq_some hfind

/-- Registering a new end keeps the wiring in order. -/
theorem register {registry registry' : Registry} {tables' : List RouteTable}
    {registration : Registration} {e : LinkEnd} {route : Route}
    (h : Wiring tables registry.pending) (he : routeAt tables e = some route)
    (hname : route.name = name) (hunwired : route.delivery = .unwired)
    (hwaits : ∀ entry ∈ registry.pending, entry.2 ≠ e)
    (hok : registry.register tables name e = .ok (registration, registry', tables')) :
    Wiring tables' registry'.pending ∧ tables'.length = tables.length := by
  unfold Registry.register at hok
  obtain ⟨_, _, hok⟩ := bind_eq_ok_iff.mp hok
  cases hstashed : registry.stashed? name with
  | none =>
    simp only [hstashed] at hok
    cases hok
    refine ⟨h.stash he hname hunwired ?_, rfl⟩
    simp only [Registry.stashed?, Option.map_eq_none_iff, List.find?_eq_none] at hstashed
    intro entry hentry
    simpa using hstashed entry hentry
  | some peer =>
    have hpeer := stashed_mem hstashed
    have hne : peer ≠ e := hwaits _ hpeer
    simp only [hstashed, hne, ↓reduceIte] at hok
    obtain ⟨_, _, hok⟩ := bind_eq_ok_iff.mp hok
    cases hok
    exact ⟨h.pair he hname hunwired hwaits hpeer, by simp [wire]⟩

/-- If all others that are not wired have waited, no end is left that neither waits nor is wired. -/
theorem waits_register {registry registry' : Registry} {tables' : List RouteTable}
    {registration : Registration} {e : LinkEnd} {route : Route}
    (h : Wiring tables registry.pending) (he : routeAt tables e = some route)
    (hname : route.name = name)
    (hwaits : ∀ (f : LinkEnd) (r : Route), routeAt tables f = some r → r.delivery = .unwired →
      f ≠ e → (r.name, f) ∈ registry.pending)
    (hok : registry.register tables name e = .ok (registration, registry', tables')) :
    ∀ (f : LinkEnd) (r : Route), routeAt tables' f = some r → r.delivery = .unwired →
      (r.name, f) ∈ registry'.pending := by
  intro f r hf hunwired
  unfold Registry.register at hok
  obtain ⟨_, _, hok⟩ := bind_eq_ok_iff.mp hok
  cases hstashed : registry.stashed? name with
  | none =>
    simp only [hstashed] at hok
    cases hok
    by_cases hfe : f = e
    · subst hfe
      rw [he] at hf
      cases hf
      exact List.mem_append_right _ (by rw [hname]; exact List.mem_singleton.mpr rfl)
    · exact List.mem_append_left _ (hwaits f r hf hunwired hfe)
  | some peer =>
    have hpeer := stashed_mem hstashed
    simp only [hstashed] at hok
    split at hok
    · rename_i heq
      cases hok
      by_cases hfe : f = e
      · subst hfe
        rw [he] at hf
        cases hf
        rw [hname, ← heq]
        exact hpeer
      · exact hwaits f r hf hunwired hfe
    · obtain ⟨_, _, hok⟩ := bind_eq_ok_iff.mp hok
      cases hok
      obtain ⟨hfpeer, hf⟩ := routeAt_of_wire hf hunwired
      obtain ⟨hfe, hf⟩ := routeAt_of_wire hf hunwired
      have hmem := hwaits f r hf hunwired hfe
      refine (List.mem_eraseP_of_neg fun hsame => ?_).mpr hmem
      have hsame : r.name = name := by simpa using hsame
      rw [hsame] at hmem
      exact hfpeer (eq_of_name h.names hmem hpeer)

end Wiring

end Lookahead

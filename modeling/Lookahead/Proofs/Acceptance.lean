import Lookahead.Proofs.Pairing

/-!
Which simulations are built.

A builder is made a simulation of exactly if no name was used an odd number of times and no link
between two partitions is faster than the window. Otherwise the error names the name whose end has
waited longest, or the link of the first among the fastest ends. The window is then never longer
than it takes to get from one partition to another (`Draft.builds_what_is_safe`).
-/

namespace Lookahead

variable {M : Model} {tables : List RouteTable} {e f : LinkEnd} {route : Route}

/-! ## Link ends in order -/

/-- Link ends are ordered by their partition, and within a partition by their number. -/
def LinkEnd.Before (e f : LinkEnd) : Prop :=
  e.partition < f.partition ∨ e.partition = f.partition ∧ e.link < f.link

theorem LinkEnd.Before.asymm (h : e.Before f) : ¬ f.Before e := by
  rcases h with hlt | ⟨heq, hlt⟩
  · rintro (hgt | ⟨hsame, _⟩)
    · exact Nat.lt_asymm hlt hgt
    · exact Nat.ne_of_lt hlt hsame.symm
  · rintro (hgt | ⟨_, hgt⟩)
    · exact Nat.ne_of_lt hgt heq.symm
    · exact Nat.lt_asymm hlt hgt

def endsOf (tables : List RouteTable) : List (LinkEnd × Route) :=
  tables.zipIdx.flatMap fun table =>
    table.1.routes.zipIdx.map fun route => (⟨table.2, route.2⟩, route.1)

theorem mem_endsOf : (e, route) ∈ endsOf tables ↔ routeAt tables e = some route := by
  unfold endsOf routeAt
  simp only [List.mem_flatMap, List.mem_map, Prod.exists, List.mem_zipIdx_iff_getElem?,
    Prod.mk.injEq, Option.bind_eq_some_iff]
  constructor
  · rintro ⟨table, i, htable, _, link, hroute, rfl, rfl⟩
    exact ⟨table, htable, hroute⟩
  · rintro ⟨table, htable, hroute⟩
    exact ⟨table, e.partition, htable, route, e.link, hroute, rfl, rfl⟩

theorem pairwise_zipIdx {α : Type} (items : List α) :
    items.zipIdx.Pairwise fun x y => x.2 < y.2 := by
  rw [← List.pairwise_map (f := Prod.snd) (R := fun i j => i < j), List.zipIdx_map_snd]
  exact List.pairwise_lt_range' 1

theorem pairwise_endsOf (tables : List RouteTable) :
    (endsOf tables).Pairwise fun x y => x.1.Before y.1 := by
  unfold endsOf
  rw [List.pairwise_flatMap]
  constructor
  · intro table _
    exact List.pairwise_map.mpr ((pairwise_zipIdx _).imp fun hlt => Or.inr ⟨rfl, hlt⟩)
  · refine (pairwise_zipIdx tables).imp fun hlt x hx y hy => Or.inl ?_
    obtain ⟨_, _, rfl⟩ := List.mem_map.mp hx
    obtain ⟨_, _, rfl⟩ := List.mem_map.mp hy
    exact hlt

namespace Builder

/-- The link ends from which another partition is reached, in order. -/
def crossEnds (b : Builder M) : List (LinkEnd × Route) :=
  (endsOf b.tables).filter fun x => crosses x.2

theorem map_crossEnds (b : Builder M) : b.crossEnds.map (·.2) = b.crossRoutes := by
  unfold crossEnds crossRoutes endsOf
  rw [List.filter_flatMap, List.map_flatMap]
  have hinner : ∀ table : RouteTable × Nat,
      ((table.1.routes.zipIdx.map fun route => ((⟨table.2, route.2⟩ : LinkEnd), route.1)).filter
        fun x => crosses x.2).map (·.2) = table.1.routes.filter crosses := by
    intro table
    rw [List.filter_map, List.map_map]
    conv => rhs; rw [← List.zipIdx_map_fst 0 table.1.routes, List.filter_map]
    rfl
  simp only [hinner]
  conv => rhs; rw [← List.zipIdx_map_fst 0 b.tables, List.flatMap_map]

/-! ## The fastest of them -/

/-- The fastest route is the first of those with the least latency. -/
theorem fastest?_split {routes : List Route} (h : fastest? routes = some route) :
    ∃ front back, routes = front ++ route :: back ∧
      (∀ other ∈ front, route.latency < other.latency) ∧
      ∀ other ∈ back, route.latency ≤ other.latency := by
  induction routes with
  | nil => cases h
  | cons first rest ih =>
    unfold fastest? at h
    cases hrest : fastest? rest with
    | none =>
      simp only [hrest, Option.some.injEq] at h
      rw [fastest?_eq_none hrest, h]
      exact ⟨[], [], rfl, List.forall_mem_nil _, List.forall_mem_nil _⟩
    | some least =>
      simp only [hrest] at h
      split at h
      · rename_i hlt
        cases h
        obtain ⟨front, back, rfl, hfront, hback⟩ := ih hrest
        refine ⟨first :: front, back, rfl, ?_, hback⟩
        exact List.forall_mem_cons.mpr ⟨hlt, hfront⟩
      · rename_i hle
        cases h
        refine ⟨[], rest, rfl, List.forall_mem_nil _, fun other hother => ?_⟩
        exact Nat.le_trans (Nat.le_of_not_lt hle) (fastest?_le hrest other hother)

end Builder

def Crosses (tables : List RouteTable) (e : LinkEnd) (route : Route) : Prop :=
  routeAt tables e = some route ∧ ∃ f, Peers tables e f ∧ f.partition ≠ e.partition

/-- The first of the link ends with the least latency among those whose peers are in other
partitions. -/
structure Fastest (tables : List RouteTable) (e : LinkEnd) (route : Route) : Prop where
  crosses : Crosses tables e route
  least : ∀ f other, Crosses tables f other → route.latency ≤ other.latency
  first : ∀ f other, Crosses tables f other → other.latency = route.latency → f = e ∨ e.Before f

theorem Fastest.eq {other : Route} (h : Fastest tables e route) (h' : Fastest tables f other) :
    e = f ∧ route = other := by
  have hle := h.least f other h'.crosses
  have hge := h'.least e route h.crosses
  have hsame : e = f := by
    rcases h.first f other h'.crosses (Nat.le_antisymm hge hle) with heq | hbefore
    · exact heq.symm
    · rcases h'.first e route h.crosses (Nat.le_antisymm hle hge) with heq | hafter
      · exact heq
      · exact absurd hafter hbefore.asymm
  subst hsame
  exact ⟨rfl, Option.some.inj (h.crosses.1.symm.trans h'.crosses.1)⟩

namespace Draft.Paired

variable {draft : Draft M} {pairs : List (LinkEnd × LinkEnd)}

theorem mem_crossEnds (h : draft.Paired pairs) :
    (e, route) ∈ draft.builder.crossEnds ↔ Crosses draft.builder.tables e route := by
  unfold Builder.crossEnds Crosses
  rw [List.mem_filter, mem_endsOf]
  refine and_congr_right fun he => ?_
  constructor
  · intro hcrosses
    cases hdelivery : route.delivery with
    | unwired => simp [Builder.crosses, hdelivery] at hcrosses
    | within link => simp [Builder.crosses, hdelivery] at hcrosses
    | across peer =>
      obtain ⟨f, hpeers⟩ := h.exists_peer he (by simp [hdelivery])
      refine ⟨f, hpeers, ?_⟩
      have hbetween := (hpeers.delivery_eq he).symm.trans hdelivery
      exact (Delivery.between_eq_across_iff.mp hbetween).1.symm
  · rintro ⟨f, hpeers, hne⟩
    have hbetween := Delivery.between_eq_across_iff.mpr ⟨hne.symm, rfl⟩
    simp [Builder.crosses, hpeers.delivery_eq he, hbetween]

theorem fastest_of_fastest? (h : draft.Paired pairs)
    (hfast : Builder.fastest? draft.builder.crossRoutes = some route) :
    ∃ e, Fastest draft.builder.tables e route := by
  obtain ⟨front, back, hsplit, hfront, hback⟩ := Builder.fastest?_split hfast
  rw [← Builder.map_crossEnds] at hsplit
  obtain ⟨before, rest, hends, rfl, hrest⟩ := List.map_eq_append_iff.mp hsplit
  obtain ⟨⟨e, least⟩, after, rfl, hroute, rfl⟩ := List.map_eq_cons_iff.mp hrest
  obtain rfl : least = route := hroute
  have horder := (pairwise_endsOf draft.builder.tables).filter fun x => Builder.crosses x.2
  change draft.builder.crossEnds.Pairwise _ at horder
  rw [hends, List.pairwise_append, List.pairwise_cons] at horder
  have hplace : ∀ {f other}, Crosses draft.builder.tables f other →
      (f, other) ∈ before ∨ f = e ∧ other = least ∨ (f, other) ∈ after := by
    intro f other hother
    simpa [hends] using h.mem_crossEnds.mpr hother
  refine ⟨e, ?_, ?_, ?_⟩
  · exact h.mem_crossEnds.mp (by simp [hends])
  · intro f other hother
    rcases hplace hother with hmem | ⟨_, rfl⟩ | hmem
    · exact Nat.le_of_lt (hfront other (List.mem_map_of_mem (f := Prod.snd) hmem))
    · exact Nat.le_refl _
    · exact hback other (List.mem_map_of_mem (f := Prod.snd) hmem)
  · intro f other hother hlatency
    rcases hplace hother with hmem | ⟨rfl, _⟩ | hmem
    · have hlt := hfront other (List.mem_map_of_mem (f := Prod.snd) hmem)
      exact absurd hlatency (Nat.ne_of_gt hlt)
    · exact Or.inl rfl
    · exact Or.inr (horder.2.1.1 _ hmem)

end Draft.Paired

/-! ## Names that are left over -/

def OddlyUsed (added : List (Addition M)) (name : String) : Prop :=
  (added.countP fun a => a.name == name) % 2 = 1

/-- Among the names that are used an odd number of times the one whose last end has waited longest.
-/
def FirstLeftOver (added : List (Addition M)) (name : String) : Prop :=
  OddlyUsed added name ∧ ∃ front a back, added = front ++ a :: back ∧ a.name = name ∧
    (∀ x ∈ back, x.name ≠ name) ∧
    ∀ other, OddlyUsed added other → other ≠ name → ∃ x ∈ back, x.name = other

namespace Draft

variable {draft : Draft M} {pairs : List (LinkEnd × LinkEnd)}

theorem config_call (draft : Draft M) (c : Builder.Call M) :
    (draft.call c).builder.config = draft.builder.config := by
  rcases draft.call_cases c with ⟨partition, name, latency, receiver, hcall⟩ | hcall |
    ⟨_, _, _, _, _, hcall⟩
  · rw [hcall]
    unfold addEnd
    split
    · rename_i hok
      obtain ⟨_, _, _, _, _, _, rfl⟩ := Builder.addEnd_eq_ok hok
      rfl
    · rfl
  · rw [hcall]
  · rw [hcall]
    rfl

theorem config_calls (draft : Draft M) (calls : List (Builder.Call M)) :
    (calls.foldl call draft).builder.config = draft.builder.config := by
  induction calls generalizing draft with
  | nil => rfl
  | cons c calls ih => exact (ih (draft.call c)).trans (draft.config_call c)

def LastWaits (draft : Draft M) : Prop :=
  ∀ name e, (name, e) ∈ draft.builder.registry.pending →
    ∃ front a back, draft.added = front ++ a :: back ∧ a.name = name ∧ a.linkEnd = e ∧
      ∀ x ∈ back, x.name ≠ name

/-- Of the ends that wait after one was added, it is the only one under its name. -/
theorem LastWaits.add (h : draft.LastWaits) {builder : Builder M} {a : Addition M}
    (hpending : ∀ name e, (name, e) ∈ builder.registry.pending →
      a.name = name ∧ a.linkEnd = e ∨
        a.name ≠ name ∧ (name, e) ∈ draft.builder.registry.pending) :
    LastWaits ⟨builder, draft.added ++ [a]⟩ := by
  intro name e hwaits
  rcases hpending name e hwaits with ⟨hname, hend⟩ | ⟨hne, hold⟩
  · exact ⟨draft.added, a, [], rfl, hname, hend, nofun⟩
  · obtain ⟨front, last, back, hadded, hname, hend, hback⟩ := h name e hold
    refine ⟨front, last, back ++ [a], ?_, hname, hend, fun x hx => ?_⟩
    · simp only [hadded, List.append_assoc, List.cons_append]
    · rcases List.mem_append.mp hx with hx | hx
      · exact hback x hx
      · rwa [List.mem_singleton.mp hx]

theorem LastWaits.addEnd (h : draft.LastWaits) (hpaired : draft.Paired pairs)
    (partition : PartitionId) (name : String) (latency : Nat) (receiver : Option M.Receiver) :
    (draft.addEnd partition name latency receiver).LastWaits := by
  unfold Draft.addEnd
  by_cases hlt : partition < draft.builder.partitions
  case neg =>
    rw [Builder.addEnd_refused (Nat.le_of_not_lt hlt)]
    exact h
  obtain ⟨_, _, ⟨hnone, hok⟩ | ⟨peer, _, hok⟩⟩ := hpaired.addEnd_cases hlt name latency receiver
  · rw [hok]
    refine h.add fun other e hwaits => ?_
    rcases List.mem_append.mp hwaits with hold | hnew
    · refine Or.inr ⟨?_, hold⟩
      rintro rfl
      exact hnone (List.mem_map_of_mem (f := fun entry => entry.1) hold)
    · cases List.mem_singleton.mp hnew
      exact Or.inl ⟨rfl, rfl⟩
  · rw [hok]
    refine h.add fun other e hwaits => Or.inr ⟨?_, List.mem_of_mem_eraseP hwaits⟩
    exact (Wiring.not_mem_eraseP hpaired.wiring.names hwaits).symm

theorem LastWaits.calls (h : draft.LastWaits) (hpaired : draft.Paired pairs)
    (calls : List (Builder.Call M)) : (calls.foldl call draft).LastWaits := by
  induction calls generalizing draft pairs with
  | nil => exact h
  | cons c calls ih =>
    obtain ⟨_, hnext⟩ := hpaired.call c
    refine ih ?_ hnext
    rcases draft.call_cases c with ⟨_, _, _, _, hcall⟩ | hcall | ⟨_, _, _, _, _, hcall⟩
    · rw [hcall]
      exact h.addEnd hpaired _ _ _ _
    · rw [hcall]
      exact h
    · rw [hcall]
      exact h

theorem LastWaits.start {config : Config} {b : Builder M} (h : Builder.ofConfig config = .ok b) :
    Draft.LastWaits ⟨b, []⟩ := by
  obtain ⟨_, _, _, rfl⟩ := Builder.ofConfig_eq_ok h
  exact nofun

namespace Paired

theorem firstLeftOver (h : draft.Paired pairs) (hlast : draft.LastWaits) {name : String}
    {rest : List (String × LinkEnd)}
    (hpending : draft.builder.registry.pending = (name, e) :: rest) :
    FirstLeftOver draft.added name := by
  have hodd := h.odd name
  unfold Registry.pendingNames at hodd
  rw [hpending] at hodd
  obtain ⟨front, a, back, hadded, hname, hend, hback⟩ := hlast name e (by simp [hpending])
  refine ⟨hodd.mp (by simp), front, a, back, hadded, hname, hback, fun other hother hne => ?_⟩
  have horder := h.order
  have hdistinct := h.nodup_entries
  rw [hadded, List.map_append, List.map_cons, hname, hend] at horder hdistinct
  rw [hpending] at horder
  obtain ⟨first, second, hsplit, hfirst, hsecond⟩ := List.sublist_append_iff.mp horder
  -- The end was added once, so what waits with it was added after it.
  have hrest : rest.Sublist (back.map fun a => (a.name, a.linkEnd)) := by
    cases first with
    | nil =>
      rw [List.nil_append] at hsplit
      rw [← hsplit] at hsecond
      exact List.cons_sublist_cons.mp hsecond
    | cons entry others =>
      obtain ⟨rfl, _⟩ := List.cons_eq_cons.mp hsplit
      have hearlier := hfirst.subset (List.mem_cons_self ..)
      exact absurd rfl ((List.nodup_append.mp hdistinct).2.2 _ hearlier _ (List.mem_cons_self ..))
  have hwaits := (h.odd other).mpr hother
  unfold Registry.pendingNames at hwaits
  rw [hpending, List.map_cons, List.mem_cons] at hwaits
  obtain ⟨entry, hentry, rfl⟩ := List.mem_map.mp (hwaits.resolve_left hne)
  obtain ⟨x, hx, rfl⟩ := List.mem_map.mp (hrest.subset hentry)
  exact ⟨x, hx, rfl⟩

/-- No end waits exactly if no name is left over. -/
theorem pending_eq_nil_iff (h : draft.Paired pairs) :
    draft.builder.registry.pending = [] ↔ ∀ name, ¬OddlyUsed draft.added name := by
  simp only [OddlyUsed, ← h.odd, Registry.pendingNames]
  rw [← List.eq_nil_iff_forall_not_mem, List.map_eq_nil_iff]

/-- There is a fastest end between partitions if there is any. -/
theorem fastest_cases (h : draft.Paired pairs) :
    (∃ e route, Builder.fastest? draft.builder.crossRoutes = some route ∧
      Fastest draft.builder.tables e route) ∨
    Builder.fastest? draft.builder.crossRoutes = none ∧
      ∀ e route, ¬Crosses draft.builder.tables e route := by
  cases hfast : Builder.fastest? draft.builder.crossRoutes with
  | some route =>
    obtain ⟨e, hfastest⟩ := h.fastest_of_fastest? hfast
    exact Or.inl ⟨e, route, rfl, hfastest⟩
  | none =>
    refine Or.inr ⟨rfl, fun e route hcrosses => ?_⟩
    have hmem := List.mem_map_of_mem (f := Prod.snd) (h.mem_crossEnds.mpr hcrosses)
    rw [Builder.map_crossEnds, Builder.fastest?_eq_none hfast] at hmem
    cases hmem

end Paired

end Draft

/-! ## Building -/

theorem map_eq_error_iff {ε α β : Type} {x : Except ε α} {g : α → β} {error : ε} :
    x.map g = .error error ↔ x = .error error := by
  cases x with
  | error other => exact Iff.of_eq (by simp [Except.map])
  | ok a => exact iff_of_false nofun nofun

namespace Builder

variable {b : Builder M} {name : String}

theorem build_of_waiting {rest : List (String × LinkEnd)}
    (h : b.registry.pending = (name, e) :: rest) :
    b.build = .error (.link (.unmatched name)) := by
  unfold build Registry.finalize Registry.pendingNames
  rw [h]
  rfl

/-- When nobody waits, the window decides. -/
theorem build_of_settled (h : b.registry.pending = []) :
    b.build = b.window.map fun window => ⟨b.setups.mapIdx (b.partition window), window⟩ := by
  unfold build Registry.finalize Registry.pendingNames
  rw [h]
  cases b.window with
  | error e => rfl
  | ok window => rfl

end Builder

/-- What is to come of the window: it is the configured one, or the least latency between two
partitions, or no limit at all. -/
inductive WindowAnswer (config : Config) (tables : List RouteTable) :
    Except ConfigError Nat → Prop
  | tooFast {e : LinkEnd} {route : Route} {window : Nat} (hconfig : config.window = some window)
    (hfastest : Fastest tables e route) (hlt : route.latency < window) :
    WindowAnswer config tables (.error (.latencyBelowSyncWindow route.name route.latency window))
  | instant {e : LinkEnd} {route : Route} (hconfig : config.window = none)
    (hfastest : Fastest tables e route) (hzero : route.latency = 0) :
    WindowAnswer config tables (.error .zeroSyncWindow)
  | configured {window : Nat} (hconfig : config.window = some window)
    (hslow : ∀ e route, Crosses tables e route → window ≤ route.latency) :
    WindowAnswer config tables (.ok window)
  | fastest {e : LinkEnd} {route : Route} (hconfig : config.window = none)
    (hfastest : Fastest tables e route) (hpositive : route.latency ≠ 0) :
    WindowAnswer config tables (.ok route.latency)
  | unlimited (hconfig : config.window = none) (hnone : ∀ e route, ¬Crosses tables e route) :
    WindowAnswer config tables (.ok lastTick)

namespace WindowAnswer

variable {config : Config} {answer : Except ConfigError Nat}

theorem eq_tooFast_iff (h : WindowAnswer config tables answer) {name : String}
    {latency window : Nat} :
    answer = .error (.latencyBelowSyncWindow name latency window) ↔
      config.window = some window ∧ latency < window ∧
        ∃ e route, Fastest tables e route ∧ route.name = name ∧ route.latency = latency := by
  constructor
  · rintro rfl
    cases h with
    | tooFast hconfig hfastest hlt => exact ⟨hconfig, hlt, _, _, hfastest, rfl, rfl⟩
  · rintro ⟨hwindow, hbelow, e, route, hfirst, rfl, rfl⟩
    cases h with
    | tooFast hconfig hfastest _ =>
      obtain ⟨_, rfl⟩ := hfirst.eq hfastest
      rw [hwindow] at hconfig
      cases hconfig
      rfl
    | configured hconfig hslow =>
      rw [hwindow] at hconfig
      cases hconfig
      exact absurd hbelow (Nat.not_lt_of_le (hslow _ _ hfirst.crosses))
    | instant hconfig | fastest hconfig | unlimited hconfig =>
      rw [hwindow] at hconfig
      cases hconfig

theorem eq_instant_iff (h : WindowAnswer config tables answer) :
    answer = .error .zeroSyncWindow ↔
      config.window = none ∧ ∃ e route, Fastest tables e route ∧ route.latency = 0 := by
  constructor
  · rintro rfl
    cases h with
    | instant hconfig hfastest hzero => exact ⟨hconfig, _, _, hfastest, hzero⟩
  · rintro ⟨hwindow, e, route, hfirst, hzero⟩
    cases h with
    | instant => rfl
    | fastest _ hfastest hpositive =>
      obtain ⟨_, rfl⟩ := hfirst.eq hfastest
      exact absurd hzero hpositive
    | unlimited _ hnone => exact absurd hfirst.crosses (hnone _ _)
    | tooFast hconfig | configured hconfig =>
      rw [hwindow] at hconfig
      cases hconfig

/-- There is a window exactly if every end between partitions is slow enough. -/
theorem exists_ok_iff (h : WindowAnswer config tables answer) :
    (∃ window, answer = .ok window) ↔
      ∀ e route, Crosses tables e route → config.window.getD 1 ≤ route.latency := by
  cases h with
  | @tooFast e route window hconfig hfastest hlt =>
    refine iff_of_false nofun fun hslow => ?_
    have hle := hslow e route hfastest.crosses
    rw [hconfig] at hle
    exact Nat.not_lt_of_le hle hlt
  | @instant e route hconfig hfastest hzero =>
    refine iff_of_false nofun fun hslow => ?_
    have hle := hslow e route hfastest.crosses
    rw [hconfig, hzero] at hle
    exact absurd hle (by decide)
  | configured hconfig hslow => exact iff_of_true ⟨_, rfl⟩ (by rw [hconfig]; exact hslow)
  | fastest hconfig hfastest hpositive =>
    refine iff_of_true ⟨_, rfl⟩ fun f other hcrosses => ?_
    rw [hconfig]
    exact Nat.le_trans (Nat.pos_of_ne_zero hpositive) (hfastest.least f other hcrosses)
  | unlimited _ hnone =>
    exact iff_of_true ⟨_, rfl⟩ fun f other hcrosses => absurd hcrosses (hnone f other)

/-- The window is not empty, and no end between partitions is faster. -/
theorem safe {window : Nat} (h : WindowAnswer config tables (.ok window))
    (hconfig : config.window ≠ some 0) :
    1 ≤ window ∧ ∀ e route, Crosses tables e route → window ≤ route.latency := by
  cases h with
  | configured hwindow hslow =>
    refine ⟨Nat.pos_of_ne_zero ?_, hslow⟩
    rintro rfl
    exact hconfig hwindow
  | fastest _ hfastest hpositive => exact ⟨Nat.pos_of_ne_zero hpositive, hfastest.least⟩
  | unlimited _ hnone =>
    exact ⟨by decide, fun e route hcrosses => absurd hcrosses (hnone e route)⟩

end WindowAnswer

theorem Draft.Paired.windowAnswer {draft : Draft M} {pairs : List (LinkEnd × LinkEnd)}
    (h : draft.Paired pairs) :
    WindowAnswer draft.builder.config draft.builder.tables draft.builder.window := by
  unfold Builder.window
  rcases h.fastest_cases with ⟨e, route, hfast, hfastest⟩ | ⟨hfast, hnone⟩
  · cases hconfig : draft.builder.config.window with
    | none =>
      simp only [hfast]
      split
      · rename_i hzero
        exact .instant hconfig hfastest hzero
      · rename_i hpositive
        exact .fastest hconfig hfastest hpositive
    | some window =>
      simp only [hfast]
      split
      · rename_i hlt
        exact .tooFast hconfig hfastest hlt
      · rename_i hle
        refine .configured hconfig fun f other hcrosses => ?_
        exact Nat.le_trans (Nat.le_of_not_lt hle) (hfastest.least f other hcrosses)
  · cases hconfig : draft.builder.config.window with
    | none =>
      simp only [hfast]
      exact .unlimited hconfig hnone
    | some window =>
      simp only [hfast]
      exact .configured hconfig fun f other hcrosses => absurd hcrosses (hnone f other)

/-! ## The main result -/

/-- What building makes of a draft that was begun with a configuration. -/
structure Draft.Judged (config : Config) (draft : Draft M) : Prop where
  /-- If names are left over, the first of them is reported. -/
  unmatched : (∃ name, OddlyUsed draft.added name) → ∃ name, FirstLeftOver draft.added name ∧
    draft.builder.build = .error (.link (.unmatched name))
  /-- Otherwise the fastest end between partitions is, if it is faster than the window. -/
  tooFast : (∀ name, ¬OddlyUsed draft.added name) → ∀ name latency window,
    draft.builder.build = .error (.latencyBelowSyncWindow name latency window) ↔
      config.window = some window ∧ latency < window ∧
        ∃ e route, Fastest draft.builder.tables e route ∧ route.name = name ∧
          route.latency = latency
  /-- Without a window it must take some time. -/
  instant : (∀ name, ¬OddlyUsed draft.added name) →
    (draft.builder.build = .error .zeroSyncWindow ↔
      config.window = none ∧ ∃ e route, Fastest draft.builder.tables e route ∧ route.latency = 0)
  fastest : (∃ e route, Crosses draft.builder.tables e route) →
    ∃ e route, Fastest draft.builder.tables e route
  /-- Everything else is built. -/
  accepted : (∃ simulation, draft.builder.build = .ok simulation) ↔
    (∀ name, ¬OddlyUsed draft.added name) ∧
      ∀ e route, Crosses draft.builder.tables e route → config.window.getD 1 ≤ route.latency
  /-- What is built has the link ends of the draft, and all its partitions have one window. -/
  window : ∀ simulation, draft.builder.build = .ok simulation →
    simulation.tables = draft.builder.tables ∧
      WindowAnswer config simulation.tables (.ok simulation.window) ∧
      ∀ p ∈ simulation.partitions, p.member.window = simulation.window
  /-- It is not empty, and no link between two partitions is faster in either direction. -/
  safe : ∀ simulation, draft.builder.build = .ok simulation → 1 ≤ simulation.window ∧
    ∀ e f route back, Peers simulation.tables e f → e.partition ≠ f.partition →
      routeAt simulation.tables e = some route → routeAt simulation.tables f = some back →
        simulation.window ≤ route.latency ∧ simulation.window ≤ back.latency

theorem Draft.Paired.judged {config : Config} {draft : Draft M}
    {pairs : List (LinkEnd × LinkEnd)} (h : draft.Paired pairs) (hlast : draft.LastWaits)
    (hconfig : draft.builder.config = config) (hvalid : config.window ≠ some 0) :
    draft.Judged config where
  unmatched hodd := by
    cases hpending : draft.builder.registry.pending with
    | nil =>
      obtain ⟨name, hname⟩ := hodd
      exact absurd hname (h.pending_eq_nil_iff.mp hpending name)
    | cons entry rest =>
      exact ⟨entry.1, h.firstLeftOver hlast hpending, Builder.build_of_waiting hpending⟩
  tooFast hnone name latency window := by
    rw [Builder.build_of_settled (h.pending_eq_nil_iff.mpr hnone), ← hconfig,
      ← h.windowAnswer.eq_tooFast_iff]
    exact map_eq_error_iff
  instant hnone := by
    rw [Builder.build_of_settled (h.pending_eq_nil_iff.mpr hnone), ← hconfig,
      ← h.windowAnswer.eq_instant_iff]
    exact map_eq_error_iff
  fastest := by
    rintro ⟨e, route, hcrosses⟩
    rcases h.fastest_cases with ⟨f, least, _, hfastest⟩ | ⟨_, hnone⟩
    · exact ⟨f, least, hfastest⟩
    · exact absurd hcrosses (hnone e route)
  accepted := by
    rw [← h.pending_eq_nil_iff, ← hconfig, ← h.windowAnswer.exists_ok_iff]
    constructor
    · rintro ⟨simulation, hbuild⟩
      obtain ⟨hsettled, window, hwindow, _⟩ := Builder.build_eq_ok hbuild
      exact ⟨hsettled, window, hwindow⟩
    · rintro ⟨hsettled, window, hwindow⟩
      rw [Builder.build_of_settled hsettled, hwindow]
      exact ⟨_, rfl⟩
  window simulation hbuild := by
    have htables := Builder.tables_build h.size hbuild
    have hanswer := h.windowAnswer
    obtain ⟨_, window, hwindow, rfl⟩ := Builder.build_eq_ok hbuild
    rw [hwindow, hconfig] at hanswer
    refine ⟨htables, htables ▸ hanswer, fun p hp => ?_⟩
    obtain ⟨i, hi, rfl⟩ := List.mem_mapIdx.mp hp
    rfl
  safe simulation hbuild := by
    have htables := Builder.tables_build h.size hbuild
    have hanswer := h.windowAnswer
    obtain ⟨_, window, hwindow, rfl⟩ := Builder.build_eq_ok hbuild
    rw [hwindow, hconfig, ← htables] at hanswer
    obtain ⟨hpositive, hslow⟩ := hanswer.safe hvalid
    refine ⟨hpositive, fun e f route back hpeers hne he hf => ⟨?_, ?_⟩⟩
    · exact hslow e route ⟨he, f, hpeers, hne.symm⟩
    · exact hslow f back ⟨hf, e, hpeers.symm, hne⟩

/-- Whatever a builder was asked for, it is made a simulation of exactly if no name is left over
and no link between two partitions is faster than the window; the error says what is wrong. -/
theorem Draft.builds_what_is_safe {config : Config} {b : Builder M}
    (h : Builder.ofConfig config = .ok b) (calls : List (Builder.Call M)) :
    (calls.foldl Draft.call ⟨b, []⟩).Judged config := by
  obtain ⟨pairs, hpaired⟩ := (Draft.Paired.start h).calls calls
  have hlast := (Draft.LastWaits.start h).calls (Draft.Paired.start h) calls
  have hconfig := Draft.config_calls ⟨b, []⟩ calls
  obtain ⟨_, hvalid, _, rfl⟩ := Builder.ofConfig_eq_ok h
  exact hpaired.judged hlast hconfig hvalid

/-- A relay that is slow in one direction only is faster than the window. The link that stays in a
partition is not, though it takes no time. -/
theorem Draft.builds_what_is_safe_relay :
    ∃ (b : Builder Ring.model) (draft : Draft Ring.model),
      Builder.ofConfig { partitions := 2, window := some 3 } = .ok b ∧
      draft = List.foldl Draft.call ⟨b, []⟩
        [.addLink 0 "relay" 3 Relay.runner, .addOutputLink 0 "loop" 0,
          .addLink 0 "loop" 0 Relay.runner, .addLink 1 "relay" 2 Relay.runner] ∧
      draft.Judged { partitions := 2, window := some 3 } ∧
      draft.builder.build = .error (.latencyBelowSyncWindow "relay" 2 3) := by
  have hvalid : Builder.ofConfig { partitions := 2, window := some 3 } =
      .ok { Relay.blank with config := { partitions := 2, window := some 3 } } := rfl
  exact ⟨_, _, hvalid, rfl, Draft.builds_what_is_safe hvalid _, rfl⟩

end Lookahead

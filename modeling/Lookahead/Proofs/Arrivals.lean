import Lookahead.Proofs.Registration
import Mathlib.Data.List.Nodup

/-!
Link ends that arrive in any order.

Who comes first under a name waits, and who comes second is wired to the first. What that amounts to
is told by who has arrived and not by when: ends of one name lead to each other, and who is alone
under a name waits (`Registry.Accounts`). So all orders of arrival come to the same
(`Registry.registrations_commute`).
-/

namespace Lookahead

variable {tables : List RouteTable} {registry : Registry} {name other : String}
  {e f peer : LinkEnd} {arrived rest : List (String × LinkEnd)}

/-! ## Arrivals -/

/-- Register ends under their names one after another. -/
def Registry.registerAll : List (String × LinkEnd) → Registry × List RouteTable →
    Except LinkError (Registry × List RouteTable)
  | [], state => .ok state
  | (name, e) :: rest, (registry, tables) => do
    let (_, state) ← registry.register tables name e
    registerAll rest state

/-- Ends that exist, each once, and no more than two of them under one name. -/
structure Registrable (tables : List RouteTable) (ends : List (String × LinkEnd)) : Prop where
  exist : ∀ x ∈ ends, ∃ route, routeAt tables x.2 = some route
  distinct : (ends.map Prod.snd).Nodup
  twice : ∀ name, (ends.countP fun x => x.1 == name) ≤ 2

def Alone (arrived : List (String × LinkEnd)) (name : String) (e : LinkEnd) : Prop :=
  (name, e) ∈ arrived ∧ ∀ f, (name, f) ∈ arrived → f = e

theorem mem_concat_of_ne (h : other ≠ name) :
    (other, f) ∈ arrived ++ [(name, e)] ↔ (other, f) ∈ arrived := by
  simp [h]

theorem alone_concat_of_ne (h : other ≠ name) :
    Alone (arrived ++ [(name, e)]) other f ↔ Alone arrived other f := by
  simp [Alone, h]

theorem alone_concat_self (h : (name, e) ∉ arrived) :
    Alone (arrived ++ [(name, e)]) name f ↔ f = e ∧ ∀ g, (name, g) ∉ arrived := by
  simp only [Alone, List.mem_append, List.mem_singleton, Prod.mk.injEq, true_and]
  constructor
  · rintro ⟨_, halone⟩
    obtain rfl := halone e (Or.inr rfl)
    refine ⟨rfl, fun g hg => ?_⟩
    obtain rfl := halone g (Or.inl hg)
    exact h hg
  · rintro ⟨rfl, hnone⟩
    exact ⟨Or.inr rfl, fun g hg => hg.resolve_left (hnone g)⟩

namespace Registrable

theorem name_eq (h : Registrable tables arrived) (he : (name, e) ∈ arrived)
    (hother : (other, e) ∈ arrived) : name = other :=
  congrArg Prod.fst (List.inj_on_of_nodup_map h.distinct he hother rfl)

theorem front (h : Registrable tables (arrived ++ rest)) : Registrable tables arrived where
  exist x hx := h.exist x (List.mem_append_left _ hx)
  distinct := h.distinct.sublist ((List.sublist_append_left ..).map _)
  twice name := Nat.le_trans (List.Sublist.countP_le (List.sublist_append_left ..)) (h.twice name)

theorem perm {others : List (String × LinkEnd)} (h : Registrable tables arrived)
    (hperm : arrived.Perm others) : Registrable tables others where
  exist x hx := h.exist x (hperm.mem_iff.mpr hx)
  distinct := (hperm.map Prod.snd).nodup_iff.mp h.distinct
  twice name := hperm.countP_eq _ ▸ h.twice name

theorem fresh (h : Registrable tables (arrived ++ (name, e) :: rest)) : (other, e) ∉ arrived := by
  have hdistinct := h.distinct
  rw [List.map_append, List.nodup_append] at hdistinct
  intro hmem
  exact hdistinct.2.2 e (List.mem_map_of_mem hmem) e (List.mem_cons_self ..) rfl

/-- Under its name no more than one other has. -/
theorem single (h : Registrable tables (arrived ++ (name, e) :: rest)) (he : (name, f) ∈ arrived)
    {g : LinkEnd} (hg : (name, g) ∈ arrived) : f = g := by
  have hcount := h.twice name
  rw [List.countP_append, List.countP_cons_of_pos (by simp), List.countP_eq_length_filter] at hcount
  have hmem : ∀ {x : LinkEnd}, (name, x) ∈ arrived →
      (name, x) ∈ arrived.filter fun x => x.1 == name :=
    fun hx => List.mem_filter.mpr ⟨hx, by simp⟩
  have hsome := List.length_pos_of_mem (hmem he)
  obtain ⟨x, hx⟩ : ∃ x, (arrived.filter fun x => x.1 == name) = [x] :=
    List.length_eq_one_iff.mp (by omega)
  simp only [hx, List.mem_singleton] at hmem
  exact congrArg Prod.snd ((hmem he).trans (hmem hg).symm)

end Registrable

/-! ## What they come to -/

/-- What the ends that have arrived come to: those of one name are wired to each other, and who is
alone under a name waits. -/
structure Registry.Accounts (registry : Registry) (arrived : List (String × LinkEnd))
    (tables tables' : List RouteTable) : Prop where
  partitions : tables'.map RouteTable.partition = tables.map RouteTable.partition
  paired : ∀ name e f, (name, e) ∈ arrived → (name, f) ∈ arrived → e ≠ f →
    routeAt tables' e = (routeAt tables e).map fun route =>
      { route with delivery := Delivery.between e f }
  others : ∀ e, (∀ name f, (name, e) ∈ arrived → (name, f) ∈ arrived → f = e) →
    routeAt tables' e = routeAt tables e
  names : registry.pendingNames.Nodup
  waiting : ∀ name e, (name, e) ∈ registry.pending ↔ Alone arrived name e
  counted : 2 * registry.wired + registry.pending.length = arrived.length

namespace Registry

namespace Accounts

variable {tables' : List RouteTable}

theorem start (tables : List RouteTable) : Accounts {} [] tables tables where
  partitions := rfl
  paired := nofun
  others := fun _ _ => rfl
  names := List.nodup_nil
  waiting := by simp [Alone]
  counted := rfl

theorem exists_routeAt (h : registry.Accounts arrived tables tables')
    (he : ∃ route, routeAt tables e = some route) : ∃ route, routeAt tables' e = some route := by
  obtain ⟨route, hroute⟩ := he
  by_cases halone : ∀ name f, (name, e) ∈ arrived → (name, f) ∈ arrived → f = e
  · exact ⟨route, (h.others e halone).trans hroute⟩
  · simp only [Classical.not_forall] at halone
    obtain ⟨name, f, he, hf, hne⟩ := halone
    rw [h.paired name e f he hf (Ne.symm hne), hroute]
    exact ⟨_, rfl⟩

/-- An end comes whose name nobody has used. -/
theorem stash (h : registry.Accounts arrived tables tables')
    (hends : Registrable tables (arrived ++ (name, e) :: rest))
    (hstashed : registry.stashed? name = none) :
    Accounts { registry with pending := registry.pending ++ [(name, e)] }
      (arrived ++ [(name, e)]) tables tables' := by
  have hnone : ∀ f, (name, f) ∉ arrived := by
    intro f hf
    have hwaits := (h.waiting name f).mpr ⟨hf, fun g hg => hends.single hg hf⟩
    rw [(stashed?_iff h.names).mpr hwaits] at hstashed
    cases hstashed
  have hidle : ∀ f, (name, f) ∉ registry.pending := fun f hf =>
    hnone f ((h.waiting name f).mp hf).1
  have halone : Alone (arrived ++ [(name, e)]) name e :=
    (alone_concat_self hends.fresh).mpr ⟨rfl, hnone⟩
  constructor
  case partitions => exact h.partitions
  case paired =>
    intro other f g hf hg hne
    by_cases hname : other = name
    · subst hname
      exact absurd ((halone.2 f hf).trans (halone.2 g hg).symm) hne
    · exact h.paired other f g ((mem_concat_of_ne hname).mp hf) ((mem_concat_of_ne hname).mp hg) hne
  case others =>
    exact fun f hf => h.others f fun other g hother hg =>
      hf other g (List.mem_append_left _ hother) (List.mem_append_left _ hg)
  case names =>
    show ((registry.pending ++ [(name, e)]).map fun entry => entry.1).Nodup
    rw [List.map_append, List.nodup_append]
    refine ⟨h.names, by simp, ?_⟩
    intro other hother last hlast heq
    obtain ⟨⟨_, f⟩, hf, rfl⟩ := List.mem_map.mp hother
    obtain rfl : last = name := by simpa using hlast
    exact hidle f (heq ▸ hf)
  case waiting =>
    intro other f
    by_cases hname : other = name
    · subst hname
      rw [alone_concat_self hends.fresh]
      simp [hidle, hnone]
    · rw [alone_concat_of_ne hname, ← h.waiting, mem_concat_of_ne hname]
  case counted =>
    have := h.counted
    simp only [List.length_append, List.length_singleton]
    omega

/-- An end comes whose name another one has used. -/
theorem pair (h : registry.Accounts arrived tables tables')
    (hends : Registrable tables (arrived ++ (name, e) :: rest))
    (hstashed : registry.stashed? name = some peer) :
    Accounts ⟨registry.pending.eraseP fun entry => entry.1 == name, registry.wired + 1⟩
      (arrived ++ [(name, e)]) tables (wire (wire tables' e peer) peer e) := by
  have hmem := Wiring.stashed_mem hstashed
  obtain ⟨hpeer, halone⟩ := (h.waiting name peer).mp hmem
  have hne : peer ≠ e := fun heq => hends.fresh (heq ▸ hpeer)
  -- Both ends are still as they were, and have no other name.
  have hnew : routeAt tables' e = routeAt tables e :=
    h.others e fun other f he _ => absurd he hends.fresh
  have hnamed : ∀ other, (other, peer) ∈ arrived → other = name := fun other hother =>
    hends.front.name_eq hother hpeer
  have hwaited : routeAt tables' peer = routeAt tables peer :=
    h.others peer fun other f hother hf => halone f (hnamed other hother ▸ hf)
  obtain ⟨route, hroute⟩ := h.exists_routeAt (hends.exist (name, e) (by simp))
  obtain ⟨back, hback⟩ := h.exists_routeAt (hends.exist (name, peer) (by simp [hpeer]))
  have hroutes := routeAt_rewired hroute hback hne
  have htwo : ∀ f, (name, f) ∈ arrived ++ [(name, e)] → f = e ∨ f = peer := by
    intro f hf
    rcases List.mem_append.mp hf with hf | hf
    · exact Or.inr (halone f hf)
    · exact Or.inl (congrArg Prod.snd (List.mem_singleton.mp hf))
  constructor
  case partitions => rw [partitions_wire, partitions_wire, h.partitions]
  case paired =>
    intro other f g hf hg hfg
    rw [hroutes]
    by_cases hname : other = name
    · subst hname
      rcases htwo f hf with rfl | rfl <;> rcases htwo g hg with rfl | rfl
      · exact absurd rfl hfg
      · simp [hnew]
      · simp [hwaited, hne]
      · exact absurd rfl hfg
    · rw [mem_concat_of_ne hname] at hf hg
      have hfe : f ≠ e := fun heq => hends.fresh (heq ▸ hf)
      have hfpeer : f ≠ peer := fun heq => hname (hnamed other (heq ▸ hf))
      rw [h.paired other f g hf hg hfg, Option.map_map]
      simp [Function.comp_def, hfe, hfpeer]
  case others =>
    intro f hf
    have hlast : (name, e) ∈ arrived ++ [(name, e)] := by simp
    have hfirst : (name, peer) ∈ arrived ++ [(name, e)] := List.mem_append_left _ hpeer
    have hfe : f ≠ e := fun heq => hne (heq ▸ hf name peer (heq ▸ hlast) hfirst)
    have hfpeer : f ≠ peer := fun heq => hne (heq ▸ hf name e (heq ▸ hfirst) hlast).symm
    rw [hroutes, ← h.others f fun other g hother hg =>
      hf other g (List.mem_append_left _ hother) (List.mem_append_left _ hg)]
    simp [hfe, hfpeer]
  case names => exact (List.Sublist.map _ List.eraseP_sublist).nodup h.names
  case waiting =>
    intro other f
    by_cases hname : other = name
    · subst hname
      refine iff_of_false (fun hf => Wiring.not_mem_eraseP h.names hf rfl) fun hf => ?_
      exact ((alone_concat_self hends.fresh).mp hf).2 peer hpeer
    · rw [alone_concat_of_ne hname, ← h.waiting]
      exact List.mem_eraseP_of_neg (by simpa using hname)
  case counted =>
    have hcounted := h.counted
    have hlength := List.length_eraseP_of_mem hmem
      (p := fun entry : String × LinkEnd => entry.1 == name) (by simp)
    have hsome := List.length_pos_of_mem hmem
    simp only [List.length_append, List.length_singleton, hlength]
    omega

theorem register (h : registry.Accounts arrived tables tables')
    (hends : Registrable tables (arrived ++ (name, e) :: rest)) :
    ∃ answer registry' tables'',
      registry.register tables' name e = .ok (answer, registry', tables'') ∧
      registry'.Accounts (arrived ++ [(name, e)]) tables tables'' := by
  have hresult := registry.registers tables' name e
  generalize registry.register tables' name e = result at hresult ⊢
  cases hresult with
  | unknown he =>
    obtain ⟨route, hroute⟩ := h.exists_routeAt (hends.exist (name, e) (by simp))
    rw [(of_checkEnd_eq_error he).1] at hroute
    cases hroute
  | stash he hstashed => exact ⟨_, _, _, rfl, h.stash hends hstashed⟩
  | again he hstashed =>
    have hmem := ((h.waiting name e).mp (Wiring.stashed_mem hstashed)).1
    exact absurd hmem hends.fresh
  | @gone peer _ he hstashed hne hpeer =>
    have hmem := ((h.waiting name peer).mp (Wiring.stashed_mem hstashed)).1
    obtain ⟨route, hroute⟩ := h.exists_routeAt (hends.exist (name, peer) (by simp [hmem]))
    rw [(of_checkEnd_eq_error hpeer).1] at hroute
    cases hroute
  | pair he hstashed hne hpeer => exact ⟨_, _, _, rfl, h.pair hends hstashed⟩

theorem registerAll (h : registry.Accounts arrived tables tables')
    (hends : Registrable tables (arrived ++ rest)) :
    ∃ registry' tables'',
      Registry.registerAll rest (registry, tables') = .ok (registry', tables'') ∧
      registry'.Accounts (arrived ++ rest) tables tables'' := by
  induction rest generalizing arrived registry tables' with
  | nil => exact ⟨registry, tables', rfl, by rwa [List.append_nil]⟩
  | cons x rest ih =>
    obtain ⟨name, e⟩ := x
    obtain ⟨answer, registry', tables'', hregister, hnext⟩ := h.register hends
    rw [List.append_cons] at hends ⊢
    obtain ⟨last, final, hall, haccounts⟩ := ih hnext hends
    refine ⟨last, final, ?_, haccounts⟩
    rw [Registry.registerAll, hregister]
    exact hall

theorem eq_of_perm {others : List (String × LinkEnd)} {registry' : Registry}
    {tables'' : List RouteTable} (h : registry.Accounts arrived tables tables')
    (h' : registry'.Accounts others tables tables'') (hperm : arrived.Perm others) :
    tables' = tables'' ∧ registry.pending.Perm registry'.pending ∧
      (∀ name, registry.stashed? name = registry'.stashed? name) ∧
      registry.wired = registry'.wired := by
  have hpending : ∀ name e, (name, e) ∈ registry.pending ↔ (name, e) ∈ registry'.pending := by
    intro name e
    simp only [h.waiting, h'.waiting, Alone, hperm.mem_iff]
  have hsame : registry.pending.Perm registry'.pending :=
    (List.perm_ext_iff_of_nodup (.of_map _ h.names) (.of_map _ h'.names)).mpr fun x =>
      hpending x.1 x.2
  refine ⟨tables_ext (h.partitions.trans h'.partitions.symm) fun e => ?_, hsame, fun name => ?_, ?_⟩
  · by_cases halone : ∀ name f, (name, e) ∈ arrived → (name, f) ∈ arrived → f = e
    · rw [h.others e halone, h'.others e]
      simpa only [hperm.mem_iff] using halone
    · simp only [Classical.not_forall] at halone
      obtain ⟨name, f, he, hf, hne⟩ := halone
      rw [h.paired name e f he hf (Ne.symm hne),
        h'.paired name e f (hperm.mem_iff.mp he) (hperm.mem_iff.mp hf) (Ne.symm hne)]
  · refine Option.ext fun e => ?_
    rw [stashed?_iff h.names, stashed?_iff h'.names, hpending]
  · have hcounted := h.counted
    have hcounted' := h'.counted
    have := hperm.length_eq
    have := hsame.length_eq
    omega

end Accounts

/-! ## The main result -/

/-- Ends that exist can be registered in any order, and in whichever order they come it is the same
in the end: those of one name are wired to each other, all others are left as they are and wait. -/
theorem registrations_commute {others : List (String × LinkEnd)}
    (hends : Registrable tables arrived) (hperm : arrived.Perm others) :
    ∃ registry registry' tables',
      registerAll arrived ({}, tables) = .ok (registry, tables') ∧
      registerAll others ({}, tables) = .ok (registry', tables') ∧
      registry.pending.Perm registry'.pending ∧
      (∀ name, registry.stashed? name = registry'.stashed? name) ∧
      registry.wired = registry'.wired ∧
      2 * registry.wired + registry.pending.length = arrived.length ∧
      (∀ name e, registry.stashed? name = some e ↔ Alone arrived name e) ∧
      tables'.map RouteTable.partition = tables.map RouteTable.partition ∧
      (∀ name e f, (name, e) ∈ arrived → (name, f) ∈ arrived → e ≠ f →
        routeAt tables' e = (routeAt tables e).map fun route =>
          { route with delivery := Delivery.between e f }) ∧
      (∀ e, (∀ name f, (name, e) ∈ arrived → (name, f) ∈ arrived → f = e) →
        routeAt tables' e = routeAt tables e) := by
  obtain ⟨registry, tables', hall, h⟩ := (Accounts.start tables).registerAll hends
  obtain ⟨registry', tables'', hothers, h'⟩ :=
    (Accounts.start tables).registerAll (hends.perm hperm)
  obtain ⟨rfl, hpending, hstashed, hwired⟩ := h.eq_of_perm h' hperm
  exact ⟨registry, registry', tables', hall, hothers, hpending, hstashed, hwired, h.counted,
    fun name e => (stashed?_iff h.names).trans (h.waiting name e), h.partitions, h.paired, h.others⟩

end Registry

def Station.ends : List (String × LinkEnd) :=
  [("there", ⟨0, 0⟩), ("spare", ⟨0, 1⟩), ("there", ⟨1, 0⟩), ("here", ⟨1, 1⟩), ("here", ⟨1, 2⟩)]

def Station.board : List RouteTable :=
  [⟨0, [{ name := "there", latency := 2 }, { name := "spare", latency := 1 }]⟩,
    ⟨1, [{ name := "there", latency := 3 }, { name := "here", latency := 0 },
      { name := "here", latency := 4 }]⟩]

/-- Whether they come from the front or from the back, one link leads from one partition to the
other, one stays within a partition, and the spare end waits. -/
theorem Registry.registrations_commute_station :
    Registrable Station.board Station.ends ∧ Station.ends.Perm Station.ends.reverse ∧
    ∃ registry registry' tables',
      registerAll Station.ends ({}, Station.board) = .ok (registry, tables') ∧
      registerAll Station.ends.reverse ({}, Station.board) = .ok (registry', tables') ∧
      registry.wired = 2 ∧ registry'.wired = 2 ∧ registry'.stashed? "spare" = some ⟨0, 1⟩ ∧
      routeAt tables' ⟨0, 0⟩ = some ⟨"there", 2, .across ⟨1, 0⟩⟩ ∧
      routeAt tables' ⟨1, 2⟩ = some ⟨"here", 4, .within 1⟩ := by
  have hends : Registrable Station.board Station.ends := by
    have htwice : ∀ x ∈ Station.ends, (Station.ends.countP fun y => y.1 == x.1) ≤ 2 := by decide
    refine ⟨by simp [Station.ends, routeAt, Station.board], by decide, fun name => ?_⟩
    by_cases hname : ∃ x ∈ Station.ends, x.1 = name
    · obtain ⟨x, hx, rfl⟩ := hname
      exact htwice x hx
    · rw [List.countP_eq_zero.mpr fun x hx => by simpa using fun heq => hname ⟨x, hx, heq⟩]
      exact Nat.zero_le 2
  have hperm : Station.ends.Perm Station.ends.reverse := (List.reverse_perm _).symm
  obtain ⟨registry, registry', tables', hall, hothers, _, hstashed, hwired, _⟩ :=
    registrations_commute hends hperm
  refine ⟨hends, hperm, registry, registry', tables', hall, hothers, ?_⟩
  cases hall
  cases hothers
  exact ⟨rfl, rfl, rfl, rfl, rfl⟩

end Lookahead

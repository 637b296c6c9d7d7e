import Lookahead.Proofs.Lifetimes
import Mathlib.Data.List.Perm.Basic

/-!
The profile of the clocks of a partition.

The calls of a handler are counted where it is on its clock, and the count is kept when it goes, by
itself or because it is removed. Whatever happens to the handlers, the entries that are kept change
by just that: who joins has one more, and whoever is called has one more call (`Counts`). So at the
end of a run the profile has one entry for each handler that ever joined a clock, with the number of
its calls (`Draft.profile_exact`).
-/

namespace Lookahead

variable {κ σ π α : Type} {M : Model}

/-! ## Joins and calls of a history -/

namespace Incident

def joined? : Incident κ → Option ClockHandle
  | .joined handle => some handle
  | _ => none

def called? : Incident κ → Option HandlerId
  | .called id => some id
  | _ => none

def Quiet (x : Incident κ) : Prop := x.joined? = none ∧ x.called? = none

end Incident

/-- The handles whose handlers were put on their clocks, in order. -/
def joined (history : List (Incident κ)) : List ClockHandle :=
  history.filterMap Incident.joined?

/-- How often the handler of number `id` was called. -/
def timesCalled (history : List (Incident κ)) (id : HandlerId) : Nat :=
  (history.filterMap Incident.called?).count id

section

variable {front back history : List (Incident κ)} {id : HandlerId}

@[simp] theorem joined_append : joined (front ++ back) = joined front ++ joined back :=
  List.filterMap_append

@[simp] theorem timesCalled_append :
    timesCalled (front ++ back) id = timesCalled front id + timesCalled back id := by
  unfold timesCalled
  rw [List.filterMap_append, List.count_append]

theorem joined_of_quiet (h : ∀ x ∈ history, x.Quiet) : joined history = [] :=
  List.filterMap_eq_nil_iff.mpr fun x hx => (h x hx).1

theorem timesCalled_of_quiet (h : ∀ x ∈ history, x.Quiet) : timesCalled history id = 0 := by
  unfold timesCalled
  rw [List.filterMap_eq_nil_iff.mpr fun x hx => (h x hx).2]
  rfl

theorem joins_carried (history : List (Incident κ)) :
    (carried history).filterMap Wish.joins? = joined history := by
  unfold carried joined
  rw [List.filterMap_filterMap]
  refine List.filterMap_congr fun x _ => ?_
  cases x <;> rfl

theorem Ledger.nodup_joined {next : HandlerId} {waiting : List Wish} {on : List ClockHandle}
    (h : Ledger history next waiting on) : ((joined history).map ClockHandle.handler).Nodup := by
  have hgranted := h.nodup_granted
  rw [← h.granted_eq, joins_carried, List.map_append] at hgranted
  exact (List.nodup_append.mp hgranted).1

end

/-! ## Entries -/

/-- What is kept of handlers on a clock of a period: their handles and how often they were called.
-/
def entriesOf (factor : Nat) (handlers : List (Attached κ)) : List (ClockHandle × Nat) :=
  handlers.map fun entry => (⟨factor, entry.id⟩, entry.calls)

def Clock.entries (clock : Clock κ) : List (ClockHandle × Nat) :=
  entriesOf clock.period.factor (clock.retired ++ clock.handlers)

def ClockSet.entries (set : ClockSet κ) : List (ClockHandle × Nat) :=
  set.clocks.flatMap Clock.entries

/-- How often handlers of number `id` were called according to some entries. -/
def callsOf (entries : List (ClockHandle × Nat)) (id : HandlerId) : Nat :=
  total (fun entry => if entry.1.handler = id then entry.2 else 0) entries

/-- The entries change by what has happened. -/
structure Counts (before : List (ClockHandle × Nat)) (history : List (Incident κ))
    (after : List (ClockHandle × Nat)) : Prop where
  handles : (after.map Prod.fst).Perm (before.map Prod.fst ++ joined history)
  calls : ∀ id, callsOf after id = callsOf before id + timesCalled history id

namespace Counts

variable {entries before before' after after' last : List (ClockHandle × Nat)}
  {history history' : List (Incident κ)}

theorem of_quiet (h : ∀ x ∈ history, x.Quiet) (hperm : after.Perm before) :
    Counts before history after where
  handles := by
    rw [joined_of_quiet h, List.append_nil]
    exact hperm.map Prod.fst
  calls id := by
    rw [timesCalled_of_quiet h]
    exact total_perm _ hperm

theorem refl (entries : List (ClockHandle × Nat)) :
    Counts entries ([] : List (Incident κ)) entries :=
  of_quiet nofun (List.Perm.refl _)

theorem trans (h : Counts before history after) (h' : Counts after history' last) :
    Counts before (history ++ history') last where
  handles := by
    rw [joined_append, ← List.append_assoc]
    exact h'.handles.trans (h.handles.append_right _)
  calls id := by
    rw [h'.calls, h.calls, timesCalled_append, Nat.add_assoc]

/-- What happens to some and what happens to others. -/
theorem append (h : Counts before history after) (h' : Counts before' history' after') :
    Counts (before ++ before') (history ++ history') (after ++ after') where
  handles := by
    simp only [List.map_append, joined_append]
    refine (h.handles.append h'.handles).trans ?_
    simp only [List.append_assoc]
    refine List.Perm.append_left _ ?_
    simp only [← List.append_assoc]
    exact List.perm_append_comm.append_right _
  calls id := by
    have hfirst := h.calls id
    have hsecond := h'.calls id
    unfold callsOf at hfirst hsecond ⊢
    rw [total_append, total_append, timesCalled_append, hfirst, hsecond]
    omega

theorem perm (h : Counts before history after) (hbefore : before.Perm before')
    (hafter : after.Perm after') : Counts before' history after' where
  handles := (hafter.map _).symm.trans (h.handles.trans ((hbefore.map _).append_right _))
  calls id := (total_perm _ hafter).symm.trans ((h.calls id).trans
    (congrArg (· + timesCalled history id) (total_perm _ hbefore)))

theorem joins (entries : List (ClockHandle × Nat)) (handle : ClockHandle) :
    Counts entries [(.joined handle : Incident κ)] (entries ++ [(handle, 0)]) where
  handles := by
    rw [List.map_append]
    exact List.Perm.refl _
  calls id := by
    have hnone : timesCalled [(.joined handle : Incident κ)] id = 0 := rfl
    simp [callsOf, hnone]

theorem called (handle : ClockHandle) (calls : Nat) (h : ∀ x ∈ history, x.Quiet) :
    Counts [(handle, calls)] (.called handle.handler :: history) [(handle, calls + 1)] := by
  have hcall : Counts [(handle, calls)] [(.called handle.handler : Incident κ)]
      [(handle, calls + 1)] := by
    refine ⟨List.Perm.refl _, fun id => ?_⟩
    by_cases hid : handle.handler = id <;> simp [callsOf, timesCalled, Incident.called?, hid]
  exact hcall.trans (of_quiet h (List.Perm.refl _))

end Counts

/-! ## Clocks -/

@[simp] theorem entriesOf_append (factor : Nat) (front back : List (Attached κ)) :
    entriesOf factor (front ++ back) = entriesOf factor front ++ entriesOf factor back :=
  List.map_append

namespace Clock

theorem config_register (clock : Clock κ) (id : HandlerId) (handler : κ)
    (timeline : Timeline π) : (clock.register id handler timeline).1.config = clock.config := by
  unfold register schedule
  dsimp only
  split <;> rfl

theorem entries_register (clock : Clock κ) (id : HandlerId) (handler : κ)
    (timeline : Timeline π) :
    (clock.register id handler timeline).1.entries =
      clock.entries ++ [(⟨clock.period.factor, id⟩, 0)] := by
  unfold register schedule
  dsimp only
  split <;> simp [entries, entriesOf]

theorem config_unregister (clock : Clock κ) (id : HandlerId) :
    (clock.unregister id).config = clock.config := by
  unfold unregister
  split <;> rfl

/-- Whoever is removed is kept in mind. -/
theorem entries_unregister (clock : Clock κ) (id : HandlerId) :
    (clock.unregister id).entries.Perm clock.entries := by
  unfold unregister
  split
  · exact List.Perm.refl _
  · rename_i entry hfound
    obtain ⟨hid, front, back, hsplit, hfront⟩ := List.find?_eq_some_iff_append.mp hfound
    have hstays : clock.handlers.eraseP (fun entry => entry.id == id) = front ++ back := by
      rw [hsplit, List.eraseP_append_right _ fun x hx => by simpa using hfront x hx,
        List.eraseP_cons_of_pos (p := fun entry : Attached κ => entry.id == id) hid]
    refine List.Perm.map _ ?_
    simp only [hstays]
    rw [hsplit, List.append_assoc, List.singleton_append]
    exact List.Perm.append_left _ List.perm_middle.symm

end Clock

/-- Entries change by what has happened, and all clocks keep what they have in common. -/
structure ClockSet.Records (before : ClockSet κ) (history : List (Incident κ))
    (after : ClockSet κ) : Prop where
  counts : Counts before.entries history after.entries
  config : after.config = before.config
  uniform : (∀ clock ∈ before.clocks, clock.config = before.config) →
    ∀ clock ∈ after.clocks, clock.config = before.config

namespace ClockSet

variable {set set' last : ClockSet κ} {history history' : List (Incident κ)}

theorem Records.of_quiet (set : ClockSet κ) (h : ∀ x ∈ history, x.Quiet) :
    set.Records history set :=
  ⟨.of_quiet h (List.Perm.refl _), rfl, fun hsame => hsame⟩

theorem Records.refl (set : ClockSet κ) : set.Records [] set := .of_quiet set nofun

theorem Records.trans (h : set.Records history set') (h' : set'.Records history' last) :
    set.Records (history ++ history') last where
  counts := h.counts.trans h'.counts
  config := h'.config.trans h.config
  uniform hsame := by
    rw [← h.config]
    exact h'.uniform (by rw [h.config]; exact h.uniform hsame)

theorem config_registerIn (config : ClockConfig) (id : HandlerId) (period : Period) (handler : κ)
    (timeline : Timeline π) (position : Nat) (clocks : List (Clock κ))
    (h : ∀ clock ∈ clocks, clock.config = config) :
    ∀ clock ∈ (registerIn config id period handler timeline position clocks).1,
      clock.config = config := by
  induction clocks generalizing position with
  | nil =>
    intro clock hclock
    simp only [registerIn, List.mem_singleton] at hclock
    rw [hclock, Clock.config_register]
  | cons first rest ih =>
    obtain ⟨hfirst, hrest⟩ := List.forall_mem_cons.mp h
    simp only [registerIn]
    split
    · exact List.forall_mem_cons.mpr ⟨(Clock.config_register ..).trans hfirst, hrest⟩
    · exact List.forall_mem_cons.mpr ⟨hfirst, ih (position + 1) hrest⟩

theorem records_attach (set : ClockSet κ) (id : HandlerId) (period : Period) (handler : κ)
    (timeline : Timeline π) :
    set.Records [.joined ⟨period.factor, id⟩] (set.attach id period handler timeline).1 where
  counts := by
    refine (Counts.joins set.entries ⟨period.factor, id⟩).perm (List.Perm.refl _) ?_
    refine List.perm_append_comm.trans (List.Perm.symm ?_)
    refine flatMap_registerIn set.config id period handler timeline ?_ (fun _ => rfl) 0 set.clocks
    rintro clock rfl
    rw [Clock.entries_register]
    exact List.perm_append_comm
  config := rfl
  uniform := config_registerIn set.config id period handler timeline 0 set.clocks

theorem records_unregister {handle : ClockHandle} {empty : Bool}
    (h : set.unregister handle = .ok (empty, set')) (hquiet : ∀ x ∈ history, x.Quiet) :
    set.Records history set' := by
  unfold unregister at h
  split at h
  · cases h
  · cases h
    constructor
    case counts =>
      refine .of_quiet hquiet ?_
      unfold entries
      rw [List.flatMap_map]
      refine List.Perm.flatMap_left _ fun clock _ => ?_
      split
      · exact clock.entries_unregister handle.handler
      · exact List.Perm.refl _
    case config => rfl
    case uniform =>
      intro hsame clock hclock
      obtain ⟨old, hold, rfl⟩ := List.mem_map.mp hclock
      split
      · exact (old.config_unregister handle.handler).trans (hsame old hold)
      · exact hsame old hold

theorem records_applyOne (set : ClockSet κ) (timeline : Timeline π) (request : ClockRequest κ) :
    set.Records [.ofRequest set (applyOne (set, timeline) request).1 request]
      (applyOne (set, timeline) request).1 := by
  cases request with
  | register id period handler => exact set.records_attach id period handler timeline
  | unregister handle =>
    have hquiet : ∀ after : ClockSet κ,
        ∀ x ∈ [Incident.ofRequest set after (.unregister handle)], x.Quiet := by
      intro after x hx
      rw [List.mem_singleton.mp hx]
      exact ⟨rfl, rfl⟩
    cases hremoval : set.unregister handle with
    | ok result =>
      simp only [applyOne, hremoval]
      exact records_unregister hremoval (hquiet _)
    | error e =>
      simp only [applyOne, hremoval]
      exact .of_quiet set (hquiet set)

/-- Requests are carried out one after another. -/
theorem records_requests (state : ClockSet κ × Timeline π) (queued : List (ClockRequest κ)) :
    state.1.Records (requestIncidents state queued) (queued.foldl applyOne state).1 := by
  induction queued generalizing state with
  | nil => exact .refl _
  | cons request rest ih =>
    exact (records_applyOne state.1 state.2 request).trans (ih (applyOne state request))

end ClockSet

/-! ## Handlers at work -/

/-- Programs ask for changes, and make none. -/
theorem Program.quiet (program : Program κ σ π α) (ctx : Context κ σ π) :
    ∀ x ∈ program.incidents ctx, x.Quiet := by
  induction program generalizing ctx with
  | done value => exact nofun
  | panic => exact nofun
  | «recall» next ih => exact ih _ ctx
  | remember state next ih => exact ih _
  | latency link next ih => exact ih _ ctx
  | send link delay payload next ih =>
    simp only [incidents]
    split
    · exact ih _ _
    · exact ih _ _
  | register period handler next ih => exact List.forall_mem_cons.mpr ⟨⟨rfl, rfl⟩, ih _ _⟩
  | unregister handle next ih => exact List.forall_mem_cons.mpr ⟨⟨rfl, rfl⟩, ih _⟩

theorem Service.counts (tick : Tick κ σ π) (s : Service κ σ π) (factor : Nat) :
    Counts [(⟨factor, s.entry.id⟩, s.entry.calls)] (s.incidents tick)
      [(⟨factor, s.entry.id⟩, s.entry.calls + 1)] := by
  refine Counts.called ⟨factor, s.entry.id⟩ s.entry.calls fun x hx => ?_
  rcases List.mem_append.mp hx with hx | hx
  · exact Program.quiet _ _ x hx
  · split at hx
    · rw [List.mem_singleton.mp hx]
      exact ⟨rfl, rfl⟩
    · cases hx

/-- All who are served in turn are called once, those that stay and those that go. -/
theorem counts_callAll (tick : Tick κ σ π) (cycle factor : Nat) {handlers : List (Attached κ)}
    {ctx : Context κ σ π} {staying going : List (Attached κ)}
    (h : (callAll tick cycle handlers ctx).2 = some (staying, going)) :
    Counts (entriesOf factor handlers)
      ((services tick cycle handlers ctx).flatMap (Service.incidents tick))
      (entriesOf factor (going ++ staying)) := by
  induction handlers generalizing ctx staying going with
  | nil =>
    cases h
    exact .refl []
  | cons entry rest ih =>
    obtain ⟨ctx', value, hrun⟩ : ∃ ctx' value,
        (tick entry.handler cycle ctx.view).run ctx = (ctx', value) := ⟨_, _, rfl⟩
    cases value with
    | none =>
      rw [callAll_panics hrun] at h
      cases h
    | some next =>
      rw [callAll_returns hrun] at h
      obtain ⟨⟨staying', going'⟩, hrest, heq⟩ := Option.map_eq_some_iff.mp h
      have hcalled := (Service.counts tick ⟨entry, cycle, ctx, ctx', some next⟩ factor).append
        (ih hrest)
      simp only [services, hrun, List.flatMap_cons]
      refine hcalled.perm (List.Perm.refl _) ?_
      cases next with
      | none =>
        cases heq
        exact List.Perm.refl _
      | some handler =>
        cases heq
        rw [entriesOf_append, entriesOf_append, List.singleton_append]
        exact List.perm_middle.symm

namespace ClockSet

theorem records_fire {tick : Tick κ σ π} {set set' : ClockSet κ} {id : ClockId}
    {ctx : Context κ σ π} (h : (set.fire tick id ctx).2 = some set') :
    set.Records (set.fireIncidents tick id ctx) set' := by
  unfold fire at h
  unfold fireIncidents
  cases hclock : set.clocks[id]? with
  | none =>
    rw [hclock] at h
    cases h
    exact .refl set
  | some clock =>
    simp only [hclock] at h
    split at h
    · cases h
    · rename_i fired hfire
      cases h
      obtain ⟨hperiod, hconfig, going, hretired, hcall⟩ := Clock.staying_of_fire hfire
      obtain ⟨others, hbefore, hafter⟩ := exists_flatMap_set hclock Clock.entries
      constructor
      case counts =>
        have hcalled := counts_callAll tick clock.nextCycle clock.period.factor hcall
        have hclocks := (Counts.refl (others ++ entriesOf clock.period.factor clock.retired)).append
          hcalled
        refine hclocks.perm ?_ ?_
        · refine List.Perm.trans (List.Perm.of_eq ?_) hbefore.symm
          simp [Clock.entries]
        · refine List.Perm.trans (List.Perm.of_eq ?_) (hafter fired).symm
          simp [Clock.entries, hperiod, hretired]
      case config => rfl
      case uniform =>
        intro hsame other hother
        rcases List.mem_or_eq_of_mem_set hother with hother | rfl
        · exact hsame other hother
        · exact hconfig.trans (hsame clock (List.mem_of_getElem? hclock))

end ClockSet

/-! ## Partitions -/

namespace Partition

variable {p : Partition M}

/-- Acting changes the entries by what happens, unless it fails. -/
theorem records_act {action : Action M.Payload} (hgoes : ∀ e q, p.act action ≠ .fail e q) :
    p.clocks.Records (p.incidents action) (p.act action).partition.clocks := by
  cases action with
  | deliver event =>
    rcases p.deliver_cases event with
      ⟨e, q, hfail⟩ | ⟨receiver, next, ctx, hreceiver, hrun, _, hdispatch⟩
    · exact absurd hfail (hgoes e q)
    · have hasked := ClockSet.Records.of_quiet p.clocks
        ((M.receive receiver event p.context.view).quiet p.context)
      simp only [act, hdispatch, incidents, hreceiver, hrun]
      exact hasked.trans (ClockSet.records_requests (p.clocks, ctx.timeline) ctx.requests.queued)
  | clock id =>
    rcases p.fire_cases id with ⟨e, q, hfail⟩ | ⟨ctx, clocks, hfire, _, hdispatch⟩
    · exact absurd hfail (hgoes e q)
    · have hcalled : p.clocks.Records (p.clocks.fireIncidents M.tick id p.context) clocks :=
        ClockSet.records_fire (congrArg Prod.snd hfire)
      simp only [act, hdispatch, incidents, hfire]
      exact hcalled.trans (ClockSet.records_requests (clocks, ctx.timeline) ctx.requests.queued)
  | sync => exact .refl _
  | stop => exact .refl _

end Partition

/-! ## Runs -/

/-- Wherever a run gets to, the entries have changed by what has happened. -/
theorem Simulation.Reaches.records {simulation : Simulation M} {machine : Machine M}
    {trace : List (PartitionId × Dispatch M)} {j : PartitionId} {first : Partition M} {t : Thread M}
    (h : simulation.Reaches trace machine) (hfirst : simulation.partitions[j]? = some first)
    (ht : machine.threads[j]? = some t) (hgoes : t.error? = none) :
    first.clocks.Records ((System.seenOf j trace).flatMap Dispatch.incidents)
      t.partition.clocks := by
  refine h.thread_induction (P := fun t seen => t.error? = none →
    first.clocks.Records (seen.flatMap Dispatch.incidents) t.partition.clocks) hfirst ht ?_ ?_ ?_
    hgoes
  · exact fun _ => .refl first.clocks
  · intro shared shared' u u' seen hbefore hnone hstep hgoes
    rw [(Thread.idles_step? hnone hstep).clocks]
    exact hbefore (Thread.error?_of_step? hstep hgoes)
  · intro trace x p d _ _ hbefore hnext hgoes
    have hacted := Partition.records_act (Thread.act_of_workOn hnext hgoes)
    rw [(Partition.Idles.next? hnext).clocks] at hacted
    rw [List.flatMap_append, List.flatMap_singleton, (Thread.workOn_of_next? hnext).1.clocks]
    exact (hbefore rfl).trans hacted

/-! ## Building -/

theorem Builder.Changes.records {setup changed : PartitionSetup M}
    {incidents : List (Incident M.Ticker)} (h : Builder.Changes setup changed incidents) :
    setup.clocks.Records incidents changed.clocks := by
  have hasks : ∀ {x : Incident M.Ticker}, x.Quiet → setup.clocks.Records [x] setup.clocks := by
    intro x hx
    refine .of_quiet _ fun y hy => ?_
    rw [List.mem_singleton.mp hy]
    exact hx
  cases h with
  | keeps hclocks =>
    rw [hclocks]
    exact .refl _
  | registers period handler hclocks =>
    rw [hclocks]
    exact (hasks ⟨rfl, rfl⟩).trans (setup.clocks.records_attach ..)
  | removes handle hclocks =>
    rw [hclocks]
    exact (hasks ⟨rfl, rfl⟩).trans
      (setup.clocks.records_applyOne setup.timeline (.unregister handle))

theorem Draft.records_calls {draft : Draft M} {j : PartitionId} {set : ClockSet M.Ticker}
    {history : List (Incident M.Ticker)} (calls : List (Builder.Call M))
    (h : ∀ setup, draft.builder.setups[j]? = some setup → set.Records history setup.clocks) :
    ∀ setup, (calls.foldl Draft.call draft).builder.setups[j]? = some setup →
      set.Records (history ++ draft.incidents j calls) setup.clocks := by
  induction calls generalizing draft history with
  | nil => simpa [incidents] using h
  | cons c calls ih =>
    rw [incidents, ← List.append_assoc]
    refine ih fun changed hchanged => ?_
    obtain ⟨setup, hsetup, hchanges⟩ := Turns.call draft j c changed hchanged
    exact (h setup hsetup).trans hchanges.records

theorem Builder.clocks_of_build {b : Builder M} {simulation : Simulation M} {j : PartitionId}
    {first : Partition M} (h : b.build = .ok simulation)
    (hfirst : simulation.partitions[j]? = some first) :
    ∃ setup, b.setups[j]? = some setup ∧ first.clocks = setup.clocks ∧
      first.requests = setup.clocks.requests := by
  obtain ⟨_, window, _, rfl⟩ := Builder.build_eq_ok h
  rw [List.getElem?_mapIdx] at hfirst
  obtain ⟨setup, hsetup, rfl⟩ := Option.map_eq_some_iff.mp hfirst
  exact ⟨setup, hsetup, rfl, rfl⟩

/-! ## Profiles -/

def HandlerProfile.handle (entry : HandlerProfile) : ClockHandle := ⟨entry.factor, entry.handler⟩

theorem byHandler :
    Ordered.ByKey fun a b : HandlerProfile => decide (a.handler < b.handler) where
  asymm a b h := by
    simp only [decide_eq_true_eq, decide_eq_false_iff_not] at h ⊢
    exact Nat.lt_asymm h
  chain a b c h h' := by
    simp only [decide_eq_false_iff_not, Nat.not_lt] at h h' ⊢
    exact Nat.le_trans h h'

namespace ClockSet

variable {set : ClockSet κ} (huniform : ∀ clock ∈ set.clocks, clock.config = set.config)

include huniform

theorem profile_of_off (h : set.config.profile = .off) : set.profile = [] := by
  have hnone : set.clocks.flatMap Clock.profile = [] := by
    refine List.flatMap_eq_nil_iff.mpr fun clock hclock => ?_
    unfold Clock.profile
    rw [huniform clock hclock, if_pos h]
  unfold profile
  rw [hnone]
  rfl

/-- A profile has all entries, of those who are on a clock and of those who were. -/
theorem entries_profile (h : set.config.profile ≠ .off) :
    (set.profile.map fun entry => (entry.handle, entry.calls)).Perm set.entries := by
  refine ((Ordered.sort_perm _ _).map _).trans ?_
  unfold entries
  rw [List.map_flatMap]
  refine List.Perm.flatMap_left _ fun clock hclock => ?_
  unfold Clock.profile
  rw [huniform clock hclock, if_neg h]
  refine ((Ordered.sort_perm _ _).map _).trans (List.Perm.of_eq ?_)
  rw [List.map_map]
  rfl

end ClockSet

/-- A profile has one entry for each handler that ever joined a clock, by their numbers, with its
clock and the number of its calls. -/
structure ProfileOf (history : List (Incident κ)) (profile : List HandlerProfile) : Prop where
  ordered : profile.Pairwise fun a b => a.handler < b.handler
  handles : (profile.map HandlerProfile.handle).Perm (joined history)
  calls : ∀ entry ∈ profile, entry.calls = timesCalled history entry.handler

/-- Where no number joins twice, all calls of a number are in one entry. -/
theorem callsOf_eq {entries : List (ClockHandle × Nat)}
    (hdistinct : (entries.map fun entry => entry.1.handler).Nodup) {handle : ClockHandle}
    {calls : Nat} (h : (handle, calls) ∈ entries) : callsOf entries handle.handler = calls := by
  obtain ⟨front, back, rfl⟩ := List.append_of_mem h
  have hothers : ∀ entry ∈ front ++ back, entry.1.handler ≠ handle.handler := by
    rw [List.map_append, List.map_cons, (List.perm_middle).nodup_iff, List.nodup_cons,
      ← List.map_append] at hdistinct
    intro entry hentry hsame
    exact hdistinct.1 (hsame ▸ List.mem_map_of_mem (f := fun entry => entry.1.handler) hentry)
  have hnone : callsOf (front ++ back) handle.handler = 0 := by
    unfold callsOf
    rw [total_congr fun entry hentry => if_neg (hothers entry hentry), total_zero]
  have hmiddle : (front ++ (handle, calls) :: back).Perm ((handle, calls) :: (front ++ back)) :=
    List.perm_middle
  unfold callsOf at hnone ⊢
  rw [total_perm _ hmiddle, total_cons, hnone, if_pos rfl, Nat.add_zero]

namespace ClockSet.Records

variable {config : ClockConfig} {set : ClockSet κ} {history : List (Incident κ)}

theorem config_clock (h : ClockSet.Records { config } history set) :
    ∀ clock ∈ set.clocks, clock.config = set.config := by
  rw [h.config]
  exact h.uniform nofun

theorem profile_eq_nil (h : ClockSet.Records { config } history set)
    (hoff : config.profile = .off) : set.profile = [] :=
  set.profile_of_off h.config_clock (by rw [h.config]; exact hoff)

theorem profileOf (h : ClockSet.Records { config } history set) (horderly : Orderly history)
    (hprofile : config.profile ≠ .off) : ProfileOf history set.profile := by
  obtain ⟨next, waiting, on, hledger⟩ := horderly
  have hentries := set.entries_profile h.config_clock (by rw [h.config]; exact hprofile)
  have hhandles : (set.profile.map HandlerProfile.handle).Perm (joined history) := by
    have hall := (hentries.map Prod.fst).trans h.counts.handles
    rwa [List.map_map] at hall
  have hdistinct : (set.profile.map HandlerProfile.handler).Nodup := by
    have hnumbers := (hhandles.map ClockHandle.handler).nodup_iff.mpr hledger.nodup_joined
    rwa [List.map_map] at hnumbers
  constructor
  case ordered =>
    have hsorted : set.profile.Pairwise fun a b => decide (b.handler < a.handler) = false :=
      Ordered.InOrder.placeAll byHandler _ List.Pairwise.nil
    refine (hsorted.and (List.pairwise_map.mp hdistinct)).imp fun ⟨hle, hne⟩ => ?_
    exact Nat.lt_of_le_of_ne (Nat.not_lt.mp (of_decide_eq_false hle)) hne
  case handles => exact hhandles
  case calls =>
    intro entry hentry
    have hmem := hentries.subset (List.mem_map_of_mem hentry)
    have hnumbers : (set.entries.map fun entry => entry.1.handler).Nodup := by
      refine (hentries.map fun entry => entry.1.handler).nodup_iff.mp ?_
      rw [List.map_map]
      exact hdistinct
    have hcalls := h.counts.calls entry.handler
    rw [show callsOf ({ config } : ClockSet κ).entries entry.handler = 0 from rfl,
      Nat.zero_add] at hcalls
    exact (callsOf_eq hnumbers hmem).symm.trans hcalls

end ClockSet.Records

/-! ## The main result -/

/-- However a simulation was built and run, a partition that has stopped reports each handler that
ever joined one of its clocks, once, with its clock and the number of its calls. Where profiling is
off it reports none. -/
theorem Draft.profile_exact {config : Config} {b : Builder M} (h : Builder.ofConfig config = .ok b)
    (calls : List (Builder.Call M)) {simulation : Simulation M}
    (hbuild : (calls.foldl Draft.call ⟨b, []⟩).builder.build = .ok simulation)
    {trace : List (PartitionId × Dispatch M)} {machine : Machine M}
    (hreach : simulation.Reaches trace machine) {j : PartitionId} {t : Thread M}
    (ht : machine.threads[j]? = some t) {report : PartitionReport}
    (hreport : Machine.reportOf? t = some report) :
    (config.clock.profile ≠ .off →
      ProfileOf (Draft.history j ⟨b, []⟩ calls trace) report.clockProfile) ∧
    (config.clock.profile = .off → report.clockProfile = []) := by
  have hlt : j < simulation.partitions.length := by
    rw [← hreach.length_threads]
    exact (List.getElem?_eq_some_iff.mp ht).1
  have hfirst := List.getElem?_eq_getElem hlt
  obtain ⟨setup, hsetup, hclocks, hrequests⟩ := Builder.clocks_of_build hbuild hfirst
  have horderly : Orderly (Draft.history j ⟨b, []⟩ calls trace) := by
    have hbegun : (⟨b, []⟩ : Draft M).builder.Books j [] := .ofConfig h
    have hledger := Draft.books_calls hbegun calls setup hsetup
    have hbooks : (simulation.partitions[j]).Books (Draft.incidents j ⟨b, []⟩ calls) := by
      refine ⟨by rw [hrequests]; rfl, ?_⟩
      rw [hrequests, hclocks]
      exact hledger
    exact (hreach.books hfirst hbooks ht).orderly
  have hmade : ClockSet.Records { config := config.clock } (Draft.incidents j ⟨b, []⟩ calls)
      setup.clocks := by
    have hbegun : ∀ setup, (⟨b, []⟩ : Draft M).builder.setups[j]? = some setup →
        ClockSet.Records { config := config.clock } [] setup.clocks := by
      obtain ⟨_, _, _, rfl⟩ := Builder.ofConfig_eq_ok h
      intro setup hsetup
      rw [List.eq_of_mem_replicate (List.mem_of_getElem? hsetup)]
      exact .refl _
    exact Draft.records_calls calls hbegun setup hsetup
  obtain ⟨stop, p, rfl⟩ : ∃ stop p, t = .ended (.ok stop) p := by
    unfold Machine.reportOf? at hreport
    split at hreport
    · exact ⟨_, _, rfl⟩
    · cases hreport
  cases hreport
  have hrun := hreach.records hfirst ht rfl
  rw [hclocks] at hrun
  have hend := hmade.trans hrun
  exact ⟨hend.profileOf horderly, hend.profile_eq_nil⟩

def Metronome.counted : Simulation Metronome.model :=
  let b := (Metronome.handover.foldl Draft.call ⟨Metronome.blank { profile := .count }, []⟩).builder
  ⟨b.setups.mapIdx (b.partition lastTick), lastTick⟩

/-- The first handler has left after one call, the second was removed before any, and the third has
left after four. -/
theorem Draft.profile_exact_handover :
    Builder.ofConfig { clock := { profile := .count } } =
      .ok (Metronome.blank { profile := .count }) ∧
    (Metronome.handover.foldl Draft.call
      ⟨Metronome.blank { profile := .count }, []⟩).builder.build = .ok Metronome.counted ∧
    ∃ trace machine t report, Metronome.counted.Reaches trace machine ∧
      machine.threads[0]? = some t ∧ Machine.reportOf? t = some report ∧
      report.clockProfile = [⟨10, 0, 1, none⟩, ⟨10, 1, 0, none⟩, ⟨10, 2, 4, none⟩] ∧
      ProfileOf (Draft.history 0 ⟨Metronome.blank { profile := .count }, []⟩ Metronome.handover
        trace) report.clockProfile := by
  have hblank : Builder.ofConfig { clock := { profile := .count } } =
      .ok (Metronome.blank { profile := .count }) := rfl
  have hbuild : (Metronome.handover.foldl Draft.call
      ⟨Metronome.blank { profile := .count }, []⟩).builder.build = .ok Metronome.counted := rfl
  have hreach := Metronome.reaches_run Metronome.counted 6
  obtain ⟨t, ht⟩ : ∃ t, (Metronome.run Metronome.counted 6).2.threads[0]? = some t := ⟨_, rfl⟩
  obtain ⟨report, hreport⟩ : ∃ report, Machine.reportOf? t = some report := by
    cases ht
    exact ⟨_, rfl⟩
  refine ⟨hblank, hbuild, _, _, t, report, hreach, ht, hreport, ?_,
    (Draft.profile_exact hblank _ hbuild hreach ht hreport).1 (by decide)⟩
  cases ht
  cases hreport
  rfl

end Lookahead

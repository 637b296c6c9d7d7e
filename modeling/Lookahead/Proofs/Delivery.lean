import Lookahead.Proofs.Conservation
import Lookahead.Proofs.Determinacy
import Lookahead.Proofs.Rollover

/-!
Exactly-once delivery.

In a run that succeeds, every send and every scheduled event that is due before the end leads to
exactly one delivery, on the link end that it is for and at its time, and there are no other
deliveries. What is left where the partitions stop is due at the stop or at the end of time.
-/

namespace Lookahead

variable {M : Model}

/-! ## The end of a run -/

def Setting.dueBeforeEnd (S : Setting) (a : Scheduled M.Payload) : Bool :=
  decide (a.time < Time.never) && S.stopAt.all fun time => decide (a.time < time)

/-- What a run leaves undelivered of what a partition was asked for. -/
def Machine.left (machine : Machine M) (trace : List (PartitionId × Dispatch M))
    (j : PartitionId) : List (Scheduled M.Payload) :=
  (machine.threads[j]?.elim [] fun t => t.partition.expected) ++ abandoned trace j

theorem Setting.not_dueBeforeEnd_of_allows {S : Setting} {agenda : List (Scheduled M.Payload)}
    {stop : StopReason} (h : S.Allows agenda stop) : ∀ a ∈ agenda, S.dueBeforeEnd a = false := by
  intro a ha
  unfold dueBeforeEnd
  cases stop with
  | stopAt =>
    obtain ⟨time, hat, hle⟩ := h
    have hnot : ¬ a.time < time := Nat.not_lt.mpr (hle a ha)
    simp [hat, hnot]
  | drained =>
    have hnot : ¬ Time.never < Time.never := Nat.lt_irrefl _
    simp [h a ha, hnot]
  | exhausted =>
    have hnil : agenda = [] := h
    rw [hnil] at ha
    cases ha

namespace Simulation

variable {b : Builder M} {log : List (Planned M.Payload)} {simulation : Simulation M}
  {labels : List (Option PartitionId)} {trace : List (PartitionId × Dispatch M)}
  {cohort : Cohort M}

theorem not_dueBeforeEnd_of_abandoned (hb : b.Made log) (hbuild : b.build = .ok simulation)
    (hrun : (Cohort.system M).Run simulation.cohort labels trace cohort)
    (hexact : ∀ entry ∈ trace, entry.2.Exact) (j : PartitionId) :
    ∀ a ∈ abandoned trace j, (b.setting simulation).dueBeforeEnd a = false := by
  intro a ha
  obtain ⟨_, _, time, hat, hle⟩ := abandoned_late hb hbuild hrun hexact j a ha
  have hstop : (b.setting simulation).stopAt = some time := hat
  have hnot : ¬ a.time < time := Nat.not_lt.mpr hle
  simp [Setting.dueBeforeEnd, hstop, hnot]

theorem deliveries_before_stop (hb : b.Made log) (hbuild : b.build = .ok simulation)
    (hrun : (Cohort.system M).Run simulation.cohort labels trace cohort) (j : PartitionId) :
    ∀ a ∈ deliveries trace j, a.priority = Priority.event →
      ∀ time, b.config.stopAt = some time → a.time < time := by
  intro a ha hpriority time hat
  obtain ⟨d, hd, ha⟩ := List.mem_flatMap.mp ha
  unfold Dispatch.delivered at ha
  split at ha
  case isFalse => cases ha
  case isTrue hdelivery =>
    obtain rfl := List.mem_singleton.mp ha
    obtain ⟨_, p, least, hnext, _, hontime, _⟩ :=
      dispatched_run hb hbuild hrun False.elim (j, d) (System.mem_seenOf.mp hd)
    obtain ⟨hagenda, _, _⟩ := Partition.agenda_of_next? hnext
    have hstop : (Activity.ofStop time : Scheduled M.Payload) ∈
        d.activity.unnumbered :: d.partition.timeline.agenda := by
      have hmem : (Activity.ofStop time : Scheduled M.Payload) ∈
          p.timeline.agenda.filter Activity.isStop := by
        have hstops := hontime.stops
        rw [show (b.setting simulation).stopAt = some time from hat] at hstops
        rw [hstops]
        exact List.mem_cons_self ..
      rw [← hagenda]
      exact (List.mem_filter.mp hmem).1
    rcases List.mem_cons.mp hstop with heq | hmem
    · have hpayload := congrArg Activity.payload heq
      rw [Activity.payload_unnumbered] at hpayload
      simp [Activity.isDelivery, ← hpayload, Activity.ofStop, Action.event?] at hdelivery
    · have hafter := hontime.order.head_not_after hagenda _ hmem
      rw [Activity.not_before_iff] at hafter
      simp only [Activity.ofStop, Activity.time_unnumbered, Activity.priority_unnumbered,
        Priority.stop] at hafter
      simp only [Activity.priority_unnumbered, Priority.event] at hpriority
      rw [Time.lt_def, Activity.time_unnumbered]
      omega

end Simulation

/-! ## Sends -/

/-- A send that was made in partition `i` at `now`, on a link end that is wired to the one where it
arrives. -/
structure Sent.Proper (s : Sent M.Payload) (tables : List RouteTable) (i : PartitionId)
    (now : Time) : Prop where
  source : s.source.partition = i
  sentAt : s.sentAt = now
  route : routeAt tables s.source = some s.route
  leads : s.route.delivery.leads s.source = some s.target
  back : ∃ back, routeAt tables s.target = some back ∧ back.name = s.route.name ∧
    back.delivery.leads s.target = some s.source
  due : s.due < Time.never → s.due.ticks = now.ticks + s.route.latency + s.delay

theorem Sent.ticks_due {π : Type} (s : Sent π) (h : s.due < Time.never) :
    s.due.ticks = s.sentAt.ticks + s.route.latency + s.delay := by
  unfold Sent.due at *
  simp only [Time.lt_def, Time.ticks_after, Time.ticks_never] at *
  omega

theorem Sent.leads_target {π : Type} {s : Sent π} (h : s.route.delivery ≠ .unwired) :
    s.route.delivery.leads s.source = some s.target := by
  unfold Sent.target
  cases hdelivery : s.route.delivery with
  | unwired => exact absurd hdelivery h
  | within link => rfl
  | across peer => rfl

namespace Simulation

variable {b : Builder M} {log : List (Planned M.Payload)} {simulation : Simulation M}
  {labels : List (Option PartitionId)} {trace : List (PartitionId × Dispatch M)}
  {cohort : Cohort M}

theorem size_eq (hbuild : b.build = .ok simulation) :
    simulation.partitions.length = b.setups.length := by
  obtain ⟨_, window, _, rfl⟩ := Builder.build_eq_ok hbuild
  exact List.length_mapIdx ..

theorem proper_sends (hb : b.Made log) (hbuild : b.build = .ok simulation)
    (hrun : (Cohort.system M).Run simulation.cohort labels trace cohort)
    {entry : PartitionId × Dispatch M} (hentry : entry ∈ trace) {s : Sent M.Payload}
    (hs : s ∈ entry.2.sends) :
    s.Proper b.tables entry.1 entry.2.activity.time ∧
      s.target.partition < simulation.partitions.length := by
  obtain ⟨labels', trace', cohort', p, _, hbefore, hp, hnext⟩ := dispatched_at hrun entry hentry
  have hroutes := routes_run hbuild hbefore entry.1 _ hp
  have hconforms := (agrees_run hb hbuild hbefore).1
  have hlike := Partition.Like.next? hnext
  have hlt := (List.getElem?_eq_some_iff.mp hp).1
  rw [hconforms.length] at hlt
  have hmade := entry.2.made_sends s hs
  have hsource : s.source.partition = entry.1 :=
    (hmade.source.trans hlike.id).trans (hconforms.each entry.1 _ hp).id
  have htable : b.tables[entry.1]? = some (b.table entry.1) := by
    have hlt' : entry.1 < b.setups.length := by
      rw [← size_eq hbuild]
      exact hlt
    exact hb.sound.table (List.getElem?_eq_getElem hlt')
  have hroute : routeAt b.tables s.source = some s.route := by
    have hget : entry.2.partition.routes.get s.source.link = .ok s.route := hmade.route
    rw [hlike.routes, show p.routes = b.table entry.1 from hroutes] at hget
    unfold routeAt
    rw [hsource, htable]
    exact Builder.get_eq_ok hget
  have hleads := Sent.leads_target hmade.wired
  obtain ⟨_, back, hback, hname, hreturn⟩ :=
    hb.sound.wiring.paired s.source s.target s.route hroute hleads
  have hsent : s.sentAt = entry.2.activity.time :=
    hmade.sentAt.trans (Partition.agenda_of_next? hnext).2.1
  refine ⟨⟨hsource, hsent, hroute, hleads, ⟨back, hback, hname, hreturn⟩, ?_⟩, ?_⟩
  · intro hdue
    rw [← hsent]
    exact s.ticks_due hdue
  · unfold routeAt at hback
    obtain ⟨table, htarget, _⟩ := Option.bind_eq_some_iff.mp hback
    rw [size_eq hbuild, ← hb.sound.size]
    exact (List.getElem?_eq_some_iff.mp htarget).1

/-! ## Exactly-once delivery -/

variable {machine : Machine M}

/-- The report of a run adds up the figures of its partitions. -/
theorem total_report {figure : PartitionReport → Nat} {f : Partition M → Nat}
    (h : ∀ p stop, figure (p.report stop) = f p) (hsucceeded : machine.Succeeded) :
    total figure (machine.threads.filterMap Machine.reportOf?) =
      total (fun t => f t.partition) machine.threads := by
  unfold Machine.Succeeded at hsucceeded
  generalize machine.threads = threads at hsucceeded
  induction threads with
  | nil => rfl
  | cons t rest ih =>
    obtain ⟨stop, p, rfl⟩ := hsucceeded t (List.mem_cons_self ..)
    have hreport : Machine.reportOf? (.ended (.ok stop) p) = some (p.report stop) := rfl
    rw [List.filterMap_cons_some hreport, total_cons, total_cons,
      ih fun t ht => hsucceeded t (List.mem_cons_of_mem _ ht), h]
    rfl

/-- Everything that was asked for was asked of some partition. -/
theorem total_asked (figure : Scheduled M.Payload → Nat) {n : Nat}
    (hlog : ∀ e ∈ log, e.target.partition < n)
    (hsends : ∀ entry ∈ trace, ∀ s ∈ entry.2.sends, s.target.partition < n) :
    total (fun j => total figure (asked log trace j)) (List.range n) =
      total (fun e => figure e.activity) log +
        total (fun s => figure s.activity) (trace.flatMap fun entry => entry.2.sends) := by
  have hall : ∀ s ∈ trace.flatMap fun entry => entry.2.sends, s.target.partition < n := by
    intro s hs
    obtain ⟨entry, hentry, hs⟩ := List.mem_flatMap.mp hs
    exact hsends entry hentry s hs
  have hsplit : ∀ j, total figure (asked log trace j) =
      total (fun e => figure e.activity) (log.filter fun e => e.target.partition == j) +
        total (fun s => figure s.activity)
          ((trace.flatMap fun entry => entry.2.sends).filter fun s =>
            s.target.partition == j) := by
    intro j
    unfold asked Dispatch.asked
    rw [total_append, total_map, List.filter_flatMap, ← List.map_flatMap, total_map]
  rw [total_congr fun j _ => hsplit j, total_add,
    total_filter (fun e : Planned M.Payload => e.target.partition) _ log hlog,
    total_filter (fun s : Sent M.Payload => s.target.partition) _ _ hall]

/-- Everything that was delivered was delivered in some partition. -/
theorem total_deliveries (figure : Scheduled M.Payload → Nat) {n : Nat}
    (hplaces : ∀ entry ∈ trace, entry.1 < n) :
    total (fun j => total figure (deliveries trace j)) (List.range n) =
      total (fun entry => total figure entry.2.delivered) trace := by
  rw [← System.total_seenOf (fun d => total figure d.delivered) hplaces]
  refine total_congr fun j _ => ?_
  unfold deliveries
  rw [total_flatMap]

/-- Whoever has succeeded has an account of all that was asked of it: it was delivered, is still on
the agenda, or was abandoned at a stop. -/
theorem conserved_of_succeeded {safe : Prop} (hb : b.Made log) (hbuild : b.build = .ok simulation)
    (h : simulation.Reaches trace machine) (hexact : safe → ∀ entry ∈ trace, entry.2.Exact)
    (hsucceeded : machine.Succeeded) {j : Nat} {t : Thread M} (ht : machine.threads[j]? = some t) :
    (∀ kind : Scheduled M.Payload → Bool, safe ∨ Activity.Timeless kind →
      (deliveries trace j ++ machine.left trace j).countP kind = (asked log trace j).countP kind) ∧
      t.partition.tally.events = (deliveries trace j).length := by
  obtain ⟨labels, cohort, hrun, htracks, _⟩ := h.cohort hb hbuild
  have hcohort := htracks.cohort_of_succeeded hsucceeded
  have hended : ∀ s ∈ cohort, ∃ stop p, s = Stance.ended stop p := by
    intro s hs
    rw [hcohort] at hs
    obtain ⟨t, ht, rfl⟩ := List.mem_map.mp hs
    obtain ⟨stop, p, rfl⟩ := hsucceeded t ht
    exact ⟨stop, p, rfl⟩
  have haccounts : cohort.Accounts safe log trace := by
    rcases accounts_run hb hbuild hrun hexact with ⟨i, e, p, hfailed⟩ | haccounts
    · obtain ⟨stop, q, heq⟩ := hended _ (List.mem_of_getElem? hfailed)
      cases heq
    · exact haccounts
  have htransit : (cohort.flatMap fun s => s.transit j) = [] := by
    rw [List.flatMap_eq_nil_iff]
    intro s hs
    obtain ⟨stop, p, rfl⟩ := hended s hs
    rfl
  have hs : cohort[j]? = some t.stance := by
    rw [hcohort, List.getElem?_map, ht]
    rfl
  refine ⟨fun kind hkind => ?_, ?_⟩
  · have hconserved := haccounts.conserved j _ hs kind hkind
    rw [htransit, Thread.partition_stance] at hconserved
    simp only [Machine.left, ht, Option.elim_some, List.countP_append, List.countP_nil] at *
    omega
  · have hcounted := haccounts.counted j _ hs
    rw [Thread.partition_stance] at hcounted
    exact hcounted

/-- Whatever the clocks do, what was asked of a partition has been delivered there or is left. -/
theorem perm_payloads (hb : b.Made log) (hbuild : b.build = .ok simulation)
    (h : simulation.Reaches trace machine) (hsucceeded : machine.Succeeded) {j : Nat}
    {t : Thread M} (ht : machine.threads[j]? = some t) :
    ((deliveries trace j ++ machine.left trace j).map Activity.payload).Perm
      ((asked log trace j).map Activity.payload) := by
  obtain ⟨hconserved, _⟩ := conserved_of_succeeded hb hbuild h False.elim hsucceeded ht
  refine perm_of_countP fun kind => ?_
  rw [List.countP_map, List.countP_map]
  exact hconserved _ (Or.inr fun a b hab => congrArg kind hab)

/-- What was asked of a partition has been delivered there or is left, and what is left is not due
before the end. -/
theorem balance (hb : b.Made log) (hbuild : b.build = .ok simulation)
    (h : simulation.Reaches trace machine) (hexact : ∀ entry ∈ trace, entry.2.Exact)
    (hsucceeded : machine.Succeeded) {j : Nat} {t : Thread M} (ht : machine.threads[j]? = some t) :
    (deliveries trace j ++ machine.left trace j).Perm (asked log trace j) ∧
      (∀ a ∈ machine.left trace j, (b.setting simulation).dueBeforeEnd a = false) ∧
      t.partition.tally.events = (deliveries trace j).length := by
  obtain ⟨hconserved, hevents⟩ :=
    conserved_of_succeeded hb hbuild h (fun _ : True => hexact) hsucceeded ht
  refine ⟨perm_of_countP fun kind => hconserved kind (Or.inl trivial), ?_, hevents⟩
  obtain ⟨labels, cohort, hrun, htracks, _⟩ := h.cohort hb hbuild
  have hs : cohort[j]? = some t.stance := by
    rw [htracks.cohort_of_succeeded hsucceeded, List.getElem?_map, ht]
    rfl
  have hleft : machine.left trace j = t.partition.expected ++ abandoned trace j := by
    unfold Machine.left
    rw [ht]
    rfl
  intro a ha
  rw [hleft] at ha
  rcases List.mem_append.mp ha with ha | ha
  · obtain ⟨stop, p, rfl⟩ := hsucceeded t (List.mem_of_getElem? ht)
    obtain ⟨_, m, hagrees⟩ := agrees_run hb hbuild hrun
    have hfinished : p.Finished (b.setting simulation) stop := by
      cases hagrees j _ hs with
      | gone least stop p hleaves h => exact h
      | finished stop p h => exact h
    exact Setting.not_dueBeforeEnd_of_allows hfinished.rest a (List.mem_filter.mp ha).1
  · exact not_dueBeforeEnd_of_abandoned hb hbuild hrun hexact j a ha

/-- What was delivered and what is left add up to what was scheduled and sent. -/
theorem events_add_left (hb : b.Made log) (hbuild : b.build = .ok simulation)
    (h : simulation.Reaches trace machine) (hsucceeded : machine.Succeeded) (window : Nat) :
    (RunReport.mk (machine.threads.filterMap Machine.reportOf?) window).events +
        total (fun j => (machine.left trace j).length)
          (List.range simulation.partitions.length) =
      log.length + (trace.flatMap fun entry => entry.2.sends).length := by
  obtain ⟨labels, cohort, hrun, _⟩ := h.cohort hb hbuild
  have hevents : total (fun t => t.partition.tally.events) machine.threads =
      total (fun j => (deliveries trace j).length) (List.range machine.threads.length) :=
    total_eq_range _ fun j t ht =>
      (conserved_of_succeeded hb hbuild h False.elim hsucceeded ht).2
  have hlengths : ∀ j ∈ List.range simulation.partitions.length,
      (deliveries trace j).length + (machine.left trace j).length =
        (asked log trace j).length := by
    intro j hj
    have hlt : j < machine.threads.length := h.length_threads ▸ List.mem_range.mp hj
    have hlength :=
      (perm_payloads hb hbuild h hsucceeded (List.getElem?_eq_getElem hlt)).length_eq
    rwa [List.length_map, List.length_map, List.length_append] at hlength
  have htargets : ∀ e ∈ log, e.target.partition < simulation.partitions.length := by
    intro e he
    rw [size_eq hbuild]
    exact hb.target_lt e he
  have hasked := total_asked (fun _ => 1) htargets
    fun entry hentry s hs => (proper_sends hb hbuild hrun hentry hs).2
  simp only [← length_eq_total] at hasked
  unfold RunReport.events
  rw [total_report (f := fun p => p.tally.events) (fun _ _ => rfl) hsucceeded, hevents,
    h.length_threads, ← total_add, total_congr hlengths, hasked]

/-- In a run that succeeds, whatever was sent or scheduled has been delivered exactly once where it
belongs or is left, and nothing else has been delivered, so that what was delivered and what is left
add up to what was asked for. Unless a clock has overflowed unnoticed, everything was delivered when
it was due, and what is left is not due before the end. -/
theorem exactly_once (hb : b.Made log) (hbuild : b.build = .ok simulation)
    (h : simulation.Reaches trace machine) {report : RunReport}
    (hreport : machine.outcome? simulation.window = some (.ok report)) :
    (∀ entry ∈ trace, ∀ s ∈ entry.2.sends,
      s.Proper b.tables entry.1 entry.2.activity.time ∧
        s.target.partition < simulation.partitions.length) ∧
    (∀ e ∈ log, e.target.partition < simulation.partitions.length) ∧
    (∀ j < simulation.partitions.length,
      ((deliveries trace j ++ machine.left trace j).map Activity.payload).Perm
        ((asked log trace j).map Activity.payload) ∧
      (∀ a ∈ deliveries trace j, a.priority = Priority.event →
        ∀ time, b.config.stopAt = some time → a.time < time)) ∧
    ((∀ entry ∈ trace, entry.2.Exact) → ∀ j < simulation.partitions.length,
      ((deliveries trace j).filter (b.setting simulation).dueBeforeEnd).Perm
        ((asked log trace j).filter (b.setting simulation).dueBeforeEnd) ∧
      (deliveries trace j ++ machine.left trace j).Perm (asked log trace j)) ∧
    report.events +
        total (fun j => (machine.left trace j).length)
          (List.range simulation.partitions.length) =
      log.length + (trace.flatMap fun entry => entry.2.sends).length := by
  obtain ⟨hsucceeded, rfl⟩ := Machine.outcome?_eq_ok_iff.mp hreport
  obtain ⟨labels, cohort, hrun, _⟩ := h.cohort hb hbuild
  have hthreads : ∀ j < simulation.partitions.length, ∃ thread,
      machine.threads[j]? = some thread := fun j hj =>
    ⟨_, List.getElem?_eq_getElem (h.length_threads ▸ hj)⟩
  refine ⟨fun entry hentry s hs => proper_sends hb hbuild hrun hentry hs, ?_, ?_, ?_,
    events_add_left hb hbuild h hsucceeded _⟩
  · intro e he
    rw [size_eq hbuild]
    exact hb.target_lt e he
  · intro j hj
    obtain ⟨thread, hthread⟩ := hthreads j hj
    exact ⟨perm_payloads hb hbuild h hsucceeded hthread, deliveries_before_stop hb hbuild hrun j⟩
  · intro hexact j hj
    obtain ⟨thread, hthread⟩ := hthreads j hj
    obtain ⟨hperm, hleft, _⟩ := balance hb hbuild h hexact hsucceeded hthread
    refine ⟨?_, hperm⟩
    have hfilter := hperm.filter (b.setting simulation).dueBeforeEnd
    have hnone : (machine.left trace j).filter (b.setting simulation).dueBeforeEnd = [] := by
      rw [List.filter_eq_nil_iff]
      intro a ha
      simp [hleft a ha]
    rw [List.filter_append, hnone, List.append_nil] at hfilter
    exact hfilter

/-- In a relay the token is delivered once where it starts and once for each of its two hops. -/
theorem exactly_once_relay : ∃ trace machine report,
    (Relay.simulation 1 2 2).Reaches trace machine ∧ machine.outcome? 2 = some (.ok report) ∧
    report.events = 3 ∧ (trace.flatMap fun entry => entry.2.sends).length = 2 ∧
    (∀ entry ∈ trace, ∀ s ∈ entry.2.sends,
      s.Proper (Relay.builder 1 2).tables entry.1 entry.2.activity.time ∧
        s.target.partition < (Relay.simulation 1 2 2).partitions.length) ∧
    (∀ e ∈ Relay.log 2, e.target.partition < (Relay.simulation 1 2 2).partitions.length) ∧
    (∀ entry ∈ trace, entry.2.Exact) ∧
    (∀ j < (Relay.simulation 1 2 2).partitions.length,
      ((deliveries trace j).filter
          ((Relay.builder 1 2).setting (Relay.simulation 1 2 2)).dueBeforeEnd).Perm
        ((asked (Relay.log 2) trace j).filter
          ((Relay.builder 1 2).setting (Relay.simulation 1 2 2)).dueBeforeEnd) ∧
      (deliveries trace j ++ machine.left trace j).Perm (asked (Relay.log 2) trace j)) ∧
    report.events +
        total (fun j => (machine.left trace j).length)
          (List.range (Relay.simulation 1 2 2).partitions.length) =
      (Relay.log 2).length + (trace.flatMap fun entry => entry.2.sends).length := by
  have h := Relay.reaches_run (Relay.simulation 1 2 2) (Relay.turns 0)
  obtain ⟨report, hreport, hevents⟩ : ∃ report,
      (Relay.run (Relay.simulation 1 2 2) (Relay.turns 0)).2.outcome? 2 = some (.ok report) ∧
        report.events = 3 := ⟨_, rfl, rfl⟩
  have hexact : ∀ entry ∈ (Relay.run (Relay.simulation 1 2 2) (Relay.turns 0)).1,
      entry.2.Exact := fun entry _ => Dispatch.exact_of_panics rfl entry.2
  obtain ⟨hproper, hlog, _, hperm, htotal⟩ :=
    exactly_once (Relay.made 1 2) (Relay.build_eq 1 2) h hreport
  exact ⟨_, _, report, h, hreport, hevents, by decide +kernel, hproper, hlog, hexact, hperm hexact,
    htotal⟩

/-- If a clock wraps around, what its handler sends for the instant 12 is delivered when the
partitions meet the next time, in the second half of time. -/
theorem delivered_late_rollover : ∃ trace machine report,
    (Rollover.builder .wraps).Made Rollover.log ∧
    (Rollover.builder .wraps).build = .ok (Rollover.simulation .wraps) ∧
    (Rollover.simulation .wraps).Reaches trace machine ∧
    machine.outcome? 10 = some (.ok report) ∧
    (∃ s ∈ trace.flatMap fun entry => entry.2.sends, s.target = ⟨1, 0⟩ ∧ s.due = Time.ofNat 12) ∧
    (deliveries trace 1).length = 2 ∧
    ∀ a ∈ deliveries trace 1, a.time = Time.ofNat 9223372036854775823 := by
  have h := Rollover.reaches_run (Rollover.simulation .wraps) Rollover.turns
  obtain ⟨report, hreport⟩ : ∃ report, (Rollover.run (Rollover.simulation .wraps)
      Rollover.turns).2.outcome? 10 = some (.ok report) := ⟨_, rfl⟩
  exact ⟨_, _, report, Rollover.made _, Rollover.build_eq _, h, hreport, by decide +kernel,
    by decide +kernel, by decide +kernel⟩

end Simulation

end Lookahead

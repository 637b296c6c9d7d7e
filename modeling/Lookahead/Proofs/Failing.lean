import Lookahead.Proofs.Faults
import Lookahead.Proofs.Outcome
import Lookahead.Proofs.Upkeep

/-!
What a run can fail with.

A dispatch fails where its handler does, or where there is none (`Partition.error_of_act`), and all
else fails only by its handlers or in a round. Which link ends have handlers never changes, clocks
that have a turn exist, and as many cycles are counted as clocks have fired
(`Simulation.Reaches.kept`). No round fails by itself (`Simulation.Reaches.not_lost`).
-/

namespace Lookahead

variable {M : Model}

def RunError.isRaised : RunError → Bool
  | .queue _ => false
  | .unhandled _ _ => false
  | _ => true

/-! ## Single actions -/

namespace ClockSet

variable {κ π : Type}

theorem fired_unregister {set set' : ClockSet κ} {handle : ClockHandle} {empty : Bool}
    (h : set.unregister handle = .ok (empty, set')) : set'.fired = set.fired := by
  unfold unregister at h
  split at h
  · cases h
  · cases h
    rfl

theorem fired_applyOne (state : ClockSet κ × Timeline π) (request : ClockRequest κ) :
    (applyOne state request).1.fired = state.1.fired := by
  cases request with
  | register id period handler => rfl
  | unregister handle =>
    unfold applyOne
    dsimp only
    split
    · rename_i hok
      exact fired_unregister hok
    · rfl

@[simp] theorem fired_apply (set : ClockSet κ) (requests : ClockRequests κ)
    (timeline : Timeline π) : (set.apply requests timeline).1.fired = set.fired := by
  have hall : ∀ (queued : List (ClockRequest κ)) (state : ClockSet κ × Timeline π),
      (queued.foldl applyOne state).1.fired = state.1.fired := by
    intro queued
    induction queued with
    | nil => exact fun _ => rfl
    | cons request rest ih => exact fun state => (ih _).trans (fired_applyOne state request)
  exact hall requests.queued (set, timeline)

end ClockSet

namespace Partition

def Tallied (p : Partition M) : Prop := p.tally.clockFires = p.clocks.fired

def served (p : Partition M) : List Bool := p.receivers.map Option.isSome

variable {p q : Partition M} {action : Action M.Payload} {e : RunError}

/-- A handler is replaced by a handler. -/
theorem served_act (p : Partition M) (action : Action M.Payload) :
    (p.act action).partition.served = p.served := by
  cases action with
  | sync => rfl
  | stop => rfl
  | clock id =>
    unfold act fire
    dsimp only
    split
    · rfl
    · split
      · rfl
      · rename_i happlied
        obtain ⟨rfl, _⟩ := applyRequests?_eq_some happlied
        rfl
  | deliver event =>
    unfold act deliver
    dsimp only
    split
    · rename_i receiver hreceiver
      split
      · rfl
      · rfl
      · rename_i ctx receiver' _
        split
        · rfl
        rename_i happlied
        obtain ⟨rfl, _⟩ := applyRequests?_eq_some happlied
        show (p.receivers.set event.link (some receiver')).map Option.isSome = p.served
        have hsame : p.served[event.link]? = some true := by
          unfold served
          rw [List.getElem?_map, hreceiver]
          rfl
        obtain ⟨hlt, hvalue⟩ := List.getElem?_eq_some_iff.mp hsame
        rw [List.map_set]
        show p.served.set event.link true = p.served
        rw [← hvalue]
        exact List.set_getElem_self hlt
    · rfl

theorem tallied_applyRequests (h : p.Tallied) (happlied : p.applyRequests? = some q) :
    q.Tallied := by
  obtain ⟨rfl, _⟩ := applyRequests?_eq_some happlied
  unfold Tallied applyRequests
  exact h.trans (ClockSet.fired_apply ..).symm

/-- Every cycle is counted, as long as there is a clock for it. -/
theorem tallied_act (h : p.Tallied)
    (hclock : ∀ id, action = .clock id → ∃ clock, p.clocks.clocks[id]? = some clock) :
    (p.act action).partition.Tallied := by
  cases action with
  | sync => exact h
  | stop => exact h
  | deliver event =>
    unfold act deliver
    dsimp only
    split
    · split
      · exact h
      · exact h
      · rename_i ctx _ _
        split
        · exact h
        · rename_i q' happlied
          exact tallied_applyRequests (p := p.withContext ctx) (q := q') h happlied
    · exact h
  | clock id =>
    obtain ⟨clock, hfound⟩ := hclock id rfl
    show (p.fire id).partition.Tallied
    unfold fire ClockSet.fire
    simp only [hfound]
    cases clock.fire M.tick p.context with
    | mk ctx fired =>
      cases fired with
      | none => exact h
      | some fired =>
        dsimp only
        split
        · exact h
        · rename_i happlied
          obtain ⟨rfl, _⟩ := applyRequests?_eq_some happlied
          simp only [Tallied, Next.partition, applyRequests, ClockSet.fired_apply]
          exact congrArg (· + 1) h

/-- An action fails by an error or a panic of a handler, or for want of one. -/
theorem error_of_act (h : p.act action = .fail e q) :
    e.isRaised = true ∨ ∃ event, action = .deliver event ∧ e = .unhandled p.id event.link ∧
      p.served[event.link]? ≠ some true := by
  cases action with
  | sync => cases h
  | stop => cases h
  | clock id =>
    unfold act fire at h
    dsimp only at h
    split at h
    · cases h
      exact Or.inl rfl
    · split at h <;> cases h
      exact Or.inl rfl
  | deliver event =>
    unfold act deliver at h
    dsimp only at h
    split at h
    · split at h
      · cases h
        exact Or.inl rfl
      · cases h
        exact Or.inl rfl
      · split at h <;> cases h
        exact Or.inl rfl
    · rename_i hnone
      cases h
      refine Or.inr ⟨event, rfl, rfl, ?_⟩
      unfold served
      rw [List.getElem?_map]
      intro hserved
      obtain ⟨receiver?, hreceiver, hsome⟩ := Option.map_eq_some_iff.mp hserved
      obtain ⟨receiver, rfl⟩ := Option.isSome_iff_exists.mp hsome
      exact hnone receiver hreceiver

/-- A phase fails by an error or a panic of a handler. -/
theorem error_of_runPhase {stage : Stage} {phase : Nat}
    (h : p.runPhase stage phase = (.error e, q)) : e.isRaised = true := by
  unfold runPhase at h
  split at h
  · cases h
    rfl
  · split at h <;> cases h <;> rfl

/-! ## Between dispatches -/

/-- `q` has the handlers, the clocks and the requests of `p`, and no other firings are counted. -/
structure Idles (p q : Partition M) : Prop where
  served : q.served = p.served
  clocks : q.clocks = p.clocks
  requests : q.requests = p.requests
  fires : q.tally.clockFires = p.tally.clockFires

namespace Idles

variable {r : Partition M}

theorem refl (p : Partition M) : p.Idles p := ⟨rfl, rfl, rfl, rfl⟩

theorem trans (h : p.Idles q) (h' : q.Idles r) : p.Idles r :=
  ⟨h'.served.trans h.served, h'.clocks.trans h.clocks, h'.requests.trans h.requests,
    h'.fires.trans h.fires⟩

theorem tallied (h : p.Idles q) (hp : p.Tallied) : q.Tallied := by
  unfold Tallied
  rw [h.fires, h.clocks]
  exact hp

theorem start (p : Partition M) : p.Idles p.start := ⟨rfl, rfl, rfl, rfl⟩

theorem phased (h : p.Phased q) : p.Idles q := by
  obtain ⟨outbound, inbox, state, participants, _, rfl⟩ := h
  exact ⟨rfl, rfl, rfl, rfl⟩

theorem next? {d : Dispatch M} (h : p.next? = some d) : p.Idles d.partition := by
  obtain ⟨timeline, _, hpartition⟩ := next?_eq_some_iff.mp h
  rw [hpartition]
  exact ⟨rfl, rfl, rfl, rfl⟩

theorem finishTimed (stop : StopReason) (p : Partition M) :
    p.Idles (Thread.finishTimed stop p).partition := by
  unfold Thread.finishTimed
  split <;> exact ⟨rfl, rfl, rfl, rfl⟩

theorem beginRound (work : Work) (p : Partition M) (kind : Round.Kind) :
    p.Idles (Thread.beginRound work p kind).partition := ⟨rfl, rfl, rfl, rfl⟩

theorem runPhase (work : Work) (stage : Stage) (phase : Nat) (p : Partition M) :
    p.Idles (Thread.runPhase work stage phase p).partition := by
  have hphases := Thread.phases_runPhase work stage phase p
  generalize Thread.runPhase work stage phase p = t at hphases
  cases hphases with
  | ready own q hphased => exact (phased hphased).trans (beginRound ..)
  | failed e q hphased => exact phased hphased

theorem afterRound (work : Work) (p : Partition M) (kind : Round.Kind)
    (outcome : Round.Outcome M.Payload) :
    p.Idles (Thread.afterRound work p kind outcome).partition := by
  unfold Thread.afterRound
  cases outcome with
  | resume nextSync => exact refl p
  | drained => exact finishTimed ..
  | untimed received more =>
    dsimp only
    split <;> exact ⟨rfl, rfl, rfl, rfl⟩

theorem syncOn {shared shared' : Shared M.Payload} {work : Work} {round : Round M.Payload}
    {t : Thread M} (h : Thread.syncOn shared work p round = some (shared', t)) :
    p.Idles t.partition := by
  unfold Thread.syncOn at h
  split at h
  · cases h
  · dsimp only at h
    split at h <;> cases h
    · exact ⟨rfl, rfl, rfl, rfl⟩
    · refine trans ?_ (afterRound ..)
      exact ⟨rfl, rfl, rfl, rfl⟩
    · exact ⟨rfl, rfl, rfl, rfl⟩

end Idles

end Partition

/-! ## Steps of a thread -/

namespace Thread

variable {shared shared' : Shared M.Payload} {t t' : Thread M} {p : Partition M} {d : Dispatch M}
  {e : RunError}

/-- After its dispatch a partition is as its action has left it, and has failed if that has. -/
theorem workOn_of_next? (h : p.next? = some d) :
    (d.partition.act d.activity.payload).partition.Idles (workOn .timed p).partition ∧
      ∀ e, (workOn .timed p).error? = some e →
        ∃ q, d.partition.act d.activity.payload = .fail e q := by
  unfold workOn
  dsimp only
  rw [dispatch_eq h]
  cases d.partition.act d.activity.payload with
  | dispatch q => exact ⟨.refl q, nofun⟩
  | sync q => exact ⟨.beginRound .., nofun⟩
  | stop reason q =>
    refine ⟨.finishTimed .., fun e he => ?_⟩
    rw [error?_finishTimed] at he
    cases he
  | fail e q =>
    refine ⟨.refl q, fun e' he => ?_⟩
    cases he
    exact ⟨q, rfl⟩

/-- A step that is no dispatch leaves the handlers and the clocks alone. -/
theorem idles_step? (hnone : t.dispatch? = none) (h : t.step? shared = some (shared', t')) :
    t.partition.Idles t'.partition := by
  cases t with
  | ended result p => cases h
  | aborting gate e p => cases gate <;> cases h <;> exact .refl p
  | syncing work p round => exact .syncOn h
  | running work p =>
    cases h
    cases work with
    | init phase => exact .runPhase ..
    | complete phase stop => exact .runPhase ..
    | timed =>
      have hnext : p.next? = none := hnone
      have hworks := works_workOn p
      generalize workOn .timed p = t at hworks
      cases hworks with
      | idle _ => exact .finishTimed ..
      | _ => simp_all

theorem isRaised_of_syncOn {work : Work} {round : Round M.Payload}
    (h : syncOn shared work p round = some (shared', t')) (he : t'.error? = some e) :
    e.isRaised = true := by
  unfold syncOn at h
  split at h
  · cases h
  · dsimp only at h
    split at h
    · cases h
      cases he
    · cases h
      rw [error?_afterRound] at he
      cases he
    · rename_i e' _
      cases h
      cases he
      cases e' <;> rfl

/-- A step that is no dispatch fails by an error or a panic of a handler, or in a round. -/
theorem isRaised_of_step? (hnone : t.dispatch? = none) (h : t.step? shared = some (shared', t'))
    (he : t'.error? = some e) : t.error? = some e ∨ e.isRaised = true := by
  have hphase : ∀ (work : Work) (stage : Stage) (phase : Nat) (p : Partition M),
      (runPhase work stage phase p).error? = some e → e.isRaised = true := by
    intro work stage phase p he
    unfold runPhase at he
    split at he
    · cases he
    · rename_i hrun
      cases he
      exact Partition.error_of_runPhase hrun
  cases t with
  | ended result p => cases h
  | aborting gate e' p => cases gate <;> cases h <;> exact Or.inl he
  | syncing work p round => exact Or.inr (isRaised_of_syncOn h he)
  | running work p =>
    cases h
    cases work with
    | init phase => exact Or.inr (hphase _ _ _ p he)
    | complete phase stop => exact Or.inr (hphase _ _ _ p he)
    | timed =>
      have hnext : p.next? = none := hnone
      have hworks := works_workOn p
      generalize workOn .timed p = t at hworks he
      cases hworks with
      | idle _ =>
        rw [error?_finishTimed] at he
        cases he
      | _ => simp_all

end Thread

/-! ## Runs -/

theorem Builder.Made.fired {b : Builder M} {log : List (Planned M.Payload)} (hb : b.Made log) :
    ∀ setup ∈ b.setups, setup.clocks.fired = 0 := by
  have hset : ∀ {b : Builder M} {i : PartitionId} {setup changed : PartitionSetup M},
      (∀ setup ∈ b.setups, setup.clocks.fired = 0) → b.setups[i]? = some setup →
        changed.clocks.fired = setup.clocks.fired →
          ∀ setup ∈ b.setups.set i changed, setup.clocks.fired = 0 := by
    intro b i setup changed hall hsetup hfired other hother
    rcases List.mem_or_eq_of_mem_set hother with hmem | rfl
    · exact hall other hmem
    · exact hfired.trans (hall setup (List.mem_of_getElem? hsetup))
  induction hb with
  | ofConfig h =>
    obtain ⟨_, _, _, rfl⟩ := ofConfig_eq_ok h
    intro setup hsetup
    rw [List.eq_of_mem_replicate hsetup]
  | addEnd _ h ih =>
    obtain ⟨setup, _, _, _, hsetup, _, rfl⟩ := addEnd_eq_ok h
    exact hset ih hsetup rfl
  | scheduleEvent _ h ih =>
    obtain ⟨setup, hsetup, rfl⟩ := scheduleEvent_eq_ok h
    exact hset ih hsetup rfl
  | registerClock _ h ih =>
    obtain ⟨setup, hsetup, rfl⟩ := registerClock_eq_ok h
    exact hset ih hsetup rfl
  | unregisterClock _ h ih =>
    obtain ⟨setup, clocks, hsetup, hclocks, rfl⟩ := unregisterClock_eq_ok h
    exact hset ih hsetup (ClockSet.fired_unregister hclocks)
  | addParticipant _ h ih =>
    obtain ⟨setup, hsetup, rfl⟩ := addParticipant_eq_ok h
    exact hset ih hsetup rfl

/-- How a thread stands that began with the partition `first` at place `j` and has made these
dispatches: its link ends have the handlers that they began with, every cycle is counted, and where
it has failed for want of a handler an event came to a link end that never had one. -/
structure Thread.Kept (j : PartitionId) (first : Partition M) (seen : List (Dispatch M))
    (t : Thread M) : Prop where
  served : t.partition.served = first.served
  tallied : t.partition.Tallied
  error : ∀ e, t.error? = some e → e.isRaised = true ∨
    ∃ d ∈ seen, ∃ event, d.activity.payload = .deliver event ∧
      e = .unhandled j event.link ∧ first.served[event.link]? ≠ some true

namespace Thread.Kept

variable {shared shared' : Shared M.Payload} {t t' : Thread M} {j : PartitionId}
  {p first : Partition M} {d : Dispatch M} {seen : List (Dispatch M)}

theorem idle (h : t.Kept j first seen) (hnone : t.dispatch? = none)
    (hstep : t.step? shared = some (shared', t')) : t'.Kept j first seen := by
  have hidles := idles_step? hnone hstep
  refine ⟨hidles.served.trans h.served, hidles.tallied h.tallied, fun e he => ?_⟩
  rcases isRaised_of_step? hnone hstep he with hold | hraised
  · exact h.error e hold
  · exact Or.inl hraised

theorem dispatch (h : (Thread.running .timed p).Kept j first seen) (hid : p.id = j)
    (hnext : p.next? = some d)
    (hclock : ∀ id, d.activity.payload = .clock id → ∃ clock, p.clocks.clocks[id]? = some clock) :
    (workOn .timed p).Kept j first (seen ++ [d]) := by
  obtain ⟨hworked, hfails⟩ := workOn_of_next? hnext
  have hidles := Partition.Idles.next? hnext
  have hserved : d.partition.served = first.served := hidles.served.trans h.served
  rw [← hidles.clocks] at hclock
  refine ⟨?_, hworked.tallied (Partition.tallied_act (hidles.tallied h.tallied) hclock), ?_⟩
  · exact hworked.served.trans ((Partition.served_act ..).trans hserved)
  · intro e he
    obtain ⟨q, hfail⟩ := hfails e he
    rcases Partition.error_of_act hfail with hraised | ⟨event, hevent, rfl, hnot⟩
    · exact Or.inl hraised
    · refine Or.inr ⟨d, by simp, event, hevent, ?_, hserved ▸ hnot⟩
      rw [(Partition.Like.next? hnext).id, hid]

end Thread.Kept

namespace Simulation

variable {b : Builder M} {log : List (Planned M.Payload)} {simulation : Simulation M}
  {trace : List (PartitionId × Dispatch M)} {machine : Machine M} {j : PartitionId}
  {p first : Partition M} {d : Dispatch M} {t : Thread M}

/-- What holds of a thread when it begins and is kept by its steps holds wherever a run gets to. -/
theorem Reaches.thread_induction {P : Thread M → List (Dispatch M) → Prop}
    (h : simulation.Reaches trace machine) (hfirst : simulation.partitions[j]? = some first)
    (ht : machine.threads[j]? = some t) (hstart : P (Thread.start first) [])
    (hidle : ∀ {shared shared' : Shared M.Payload} {u u' : Thread M} {seen : List (Dispatch M)},
      P u seen → u.dispatch? = none → u.step? shared = some (shared', u') → P u' seen)
    (hdispatch : ∀ {trace : List (PartitionId × Dispatch M)} {x : Machine M} {p : Partition M}
      {d : Dispatch M}, simulation.Reaches trace x → x.threads[j]? = some (.running .timed p) →
        P (.running .timed p) (System.seenOf j trace) → p.next? = some d →
          P (Thread.workOn .timed p) (System.seenOf j trace ++ [d])) :
    P t (System.seenOf j trace) := by
  obtain ⟨schedule, hrun⟩ := h
  induction hrun generalizing t with
  | refl =>
    have hthread : simulation.machine.threads[j]? = some (Thread.start first) := by
      show (simulation.partitions.map Thread.start)[j]? = _
      rw [List.getElem?_map, hfirst]
      rfl
    obtain rfl := Option.some.inj (hthread.symm.trans ht)
    exact hstart
  | @step schedule trace x y i hrun hstep ih =>
    obtain ⟨u, hu, hcase⟩ := Machine.thread_of_step hstep ht
    have hbefore := ih hu
    have hnote : (Machine.system M).note x i =
        noteAt i (x.threads[i]?.bind Thread.dispatch?) := rfl
    rw [System.seenOf_append, hnote]
    rcases hcase with ⟨rfl, hij⟩ | ⟨rfl, shared, hthread⟩
    · rw [seenOf_noteAt_of_ne hij, List.append_nil]
      exact hbefore
    · rw [hu, Option.bind_some, seenOf_noteAt_self]
      cases hnone : u.dispatch? with
      | none =>
        rw [Option.toList_none, List.append_nil]
        exact hidle hbefore hnone hthread
      | some d =>
        obtain ⟨_, p, rfl, hnext⟩ := Thread.now_of_dispatch hnone hthread
        cases hthread
        exact hdispatch ⟨schedule, hrun⟩ hu hbefore hnext

theorem Reaches.exists_clock (hb : b.Made log) (hbuild : b.build = .ok simulation)
    (h : simulation.Reaches trace machine) (ht : machine.threads[j]? = some (.running .timed p))
    (hnext : p.next? = some d) {id : ClockId} (hclock : d.activity.payload = .clock id) :
    ∃ clock, p.clocks.clocks[id]? = some clock := by
  obtain ⟨start, hstart, hcourse⟩ := h.course hb hbuild False.elim ht
  obtain ⟨hregular, _⟩ := hcourse.regular (regular_start False hb hbuild hstart).1
  obtain ⟨timeline, hadvance, _⟩ := Partition.next?_eq_some_iff.mp hnext
  have hturn : d.activity.unnumbered ∈ p.timeline.turns id := by
    rw [Timeline.turns_of_advance hadvance]
    simp [hclock, Action.clock?]
  obtain ⟨clock, hfound, _⟩ := hregular.clock_of_mem_turns hturn
  exact ⟨clock, hfound⟩

theorem kept_start (hb : b.Made log) (hbuild : b.build = .ok simulation)
    (hfirst : simulation.partitions[j]? = some first) : (Thread.start first).Kept j first [] := by
  have hfired : first.clocks.fired = 0 ∧ first.tally.clockFires = 0 := by
    obtain ⟨_, window, _, rfl⟩ := Builder.build_eq_ok hbuild
    rw [List.getElem?_mapIdx] at hfirst
    obtain ⟨setup, hsetup, rfl⟩ := Option.map_eq_some_iff.mp hfirst
    exact ⟨hb.fired setup (List.mem_of_getElem? hsetup), rfl⟩
  exact ⟨rfl, hfired.2.trans hfired.1.symm, nofun⟩

theorem Reaches.id_of_running (hb : b.Made log) (hbuild : b.build = .ok simulation)
    (h : simulation.Reaches trace machine) {work : Work}
    (ht : machine.threads[j]? = some (.running work p)) : p.id = j := by
  obtain ⟨_, cohort, _, htracks, hplaced⟩ := h.cohort hb hbuild
  exact (hplaced j _ (htracks.stance_of_running ht)).id

/-- Wherever a run gets to, all threads have kept to what they began with. -/
theorem Reaches.kept (hb : b.Made log) (hbuild : b.build = .ok simulation)
    (h : simulation.Reaches trace machine) (hfirst : simulation.partitions[j]? = some first)
    (ht : machine.threads[j]? = some t) : t.Kept j first (System.seenOf j trace) :=
  h.thread_induction (P := fun t seen => t.Kept j first seen) hfirst ht
    (kept_start hb hbuild hfirst) Thread.Kept.idle
    fun hreaches hu hkept hnext => hkept.dispatch (hreaches.id_of_running hb hbuild hu) hnext
      fun _ => hreaches.exists_clock hb hbuild hu hnext

/-- No round fails by itself: the inbox that a batch is put into is there as long as anyone is in
the round. -/
theorem Reaches.not_lost (hb : b.Made log) (hbuild : b.build = .ok simulation)
    (h : simulation.Reaches trace machine) {work : Work} {round : Round M.Payload}
    (ht : machine.threads[j]? = some (.syncing work p round)) {shared : Shared M.Payload}
    {seat : Seat M.Payload}
    (hseat : Seat.step? machine.shared ⟨p.member, p.timeline, .going round⟩ = some (shared, seat))
    (e : LinkError) : seat.progress ≠ .over (.error (.link e)) := by
  intro hover
  obtain ⟨_, cohort, _, htracks, hplaced⟩ := h.cohort hb hbuild
  let left : Partition M := { p with member := seat.member, timeline := seat.timeline }
  have hstep : (Thread.syncing work p round).step? machine.shared =
      some (shared, Thread.fail (.link e) left) := by
    simp only [Thread.step?, Thread.syncOn, hseat, hover]
    rfl
  obtain ⟨next, hnext, hthread, _⟩ := Machine.exists_step_of_thread ht hstep
  obtain ⟨u, labels, cohort', hu, hecho, htracks'⟩ := htracks.echo hplaced hnext
  obtain rfl := Option.some.inj (ht.symm.trans hu)
  -- Nobody fails in a round of a cohort, and no partition has failed whose thread is in a round.
  have hfailed : ∃ q, cohort'[j]? = some (.failed (.link e) q) := by
    rcases htracks'.left_cases hthread with ⟨hnone, _⟩ | ⟨_, _, hended, _⟩ |
      ⟨e', q, he, _, hstance⟩ | ⟨_, he, _⟩
    · cases hnone
    · cases hended
    · cases he
      exact ⟨q, hstance⟩
    · cases he
  obtain ⟨q, hstance⟩ := hfailed
  cases hecho with
  | work work' p' hrunning hs => cases hrunning
  | nothing hidle =>
    obtain ⟨t, ht', herror⟩ := htracks.error?_of_failed hstance
    obtain rfl := Option.some.inj (ht.symm.trans ht')
    cases herror
  | exchange next hidle hexchange =>
    obtain ⟨parties, _, _, rfl⟩ := Cohort.exchange?_eq_some_iff.mp hexchange
    obtain ⟨r, _, hconclude⟩ := Cohort.getElem?_exchanged hstance
    have herror := Thread.error?_of_stance hconclude.symm
    rw [Party.error?_conclude] at herror
    cases herror

end Simulation

end Lookahead

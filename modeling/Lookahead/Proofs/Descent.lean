import Lookahead.Proofs.Restarts

/-!
Time goes on with every dispatch.

What a dispatch brings about is due later, if every link takes its time, or at the same instant and
behind it in the order of priorities, as only clocks are that are started at one of their own
boundaries (`Dispatch.brings`). So with a stop ahead, everything that a dispatch brings about weighs
less than what was dispatched (`Activity.Brings.weight_lt`).
-/

namespace Lookahead

variable {M : Model}

/-! ## What a dispatch brings about -/

def Effect.brought (e : Effect M) (a : Scheduled M.Payload) : Prop :=
  a ∈ Sent.kept e.sends ++ e.ticks ∨ ∃ j, a ∈ Sent.bound e.sends j

/-- An activity is due later than another one, or at the same instant as a clock whose turn is still
to come. -/
def Activity.Brings {π : Type} (clock : Int) (a x : Scheduled π) : Prop :=
  a.time < x.time ∨ (x.time = a.time ∧ a.priority < clock ∧ x.priority = clock)

namespace Timeline

variable {π : Type}

/-- A turn that was pending and one that was queued are two. -/
theorem turns_addAll_ne_singleton {timeline : Timeline π} {added : List (Scheduled π)}
    {id : ClockId} {a : Scheduled π} (ha : a ∈ added) (hclock : a.payload.clock? = some id)
    (hpending : timeline.turns id ≠ []) (b : Scheduled π) :
    (timeline.addAll added).turns id ≠ [b] := by
  intro hone
  have hperm := (timeline.agenda_addAll_perm added).filter fun x => x.payload.clock? == some id
  rw [List.filter_append] at hperm
  have hlength : ((timeline.addAll added).turns id).length =
      ((added.map Activity.unnumbered).filter fun x => x.payload.clock? == some id).length +
        (timeline.turns id).length := hperm.length_eq.trans (List.length_append ..)
  have hadded : 0 < ((added.map Activity.unnumbered).filter
      fun x => x.payload.clock? == some id).length := by
    refine List.length_pos_of_mem (List.mem_filter.mpr ⟨List.mem_map_of_mem ha, ?_⟩)
    simp [hclock]
  have hbefore : 0 < (timeline.turns id).length := List.length_pos_iff.mpr hpending
  rw [hone, List.length_singleton] at hlength
  omega

end Timeline

namespace ClockSet.Regular

variable {q : Partition M} {d : Dispatch M} {e : Effect M}

/-- A clock activity that is queued in a dispatch is the next turn of a clock that has fired, or the
first one of a clock that has been started. -/
theorem brings_ticks (h : q.clocks.Regular True q.timeline) (hnext : q.next? = some d)
    (hexact : d.Exact) (heffect : e.Of d) (hfault : e.fault = none)
    (hlast : d.activity.time < Time.never)
    {x : Scheduled M.Payload} (hx : x ∈ e.ticks) :
    Activity.Brings q.clocks.config.priority d.activity x := by
  have hafter := Dispatch.after?_of_effect heffect hfault
  obtain ⟨set, timeline, _, hleaves, hadjusts, hregular⟩ := h.upkeep hnext (fun _ => hexact) hafter
  obtain ⟨id, hpayload⟩ := (heffect.ticks x hx).clock
  have hclock : x.payload.clock? = some id := Action.clock?_eq_some.mpr hpayload
  have hadded : x ∈ Sent.kept e.sends ++ e.ticks := List.mem_append_right _ hx
  have hturn : x.unnumbered ∈ (d.partition.after e).timeline.turns id :=
    List.mem_filter.mpr ⟨Timeline.mem_agenda_addAll.mpr (Or.inl ⟨x, hadded, rfl⟩), by simp [hclock]⟩
  obtain ⟨clock, hfound, hpriority, _⟩ := hregular.clock_of_mem_turns hturn
  rw [hadjusts.config, hleaves.config] at hpriority
  have hplace := hregular.each id clock hfound
  cases hscheduled : clock.scheduled with
  | false =>
    rw [hplace.dormant hscheduled] at hturn
    cases hturn
  | true =>
    obtain ⟨time, hturns, _⟩ := hplace.queued hscheduled
    rw [hturns] at hturn
    have htime : x.time = time := congrArg Activity.time (List.mem_singleton.mp hturn)
    rw [Activity.Brings, htime]
    cases h.queues hnext hexact hafter hfound hscheduled hturns with
    | kept before hfires hbefore hbefore' hpending =>
      have hnot : d.activity.payload.clock? ≠ some id := by simpa [Dispatch.fires] using hfires
      rw [turns_of_next? hnext id, if_neg hnot, List.nil_append] at hpending
      exact absurd hturns
        (Timeline.turns_addAll_ne_singleton hadded hclock (by rw [hpending]; simp) _)
    | again before hfires hbefore htime' =>
      rw [htime']
      exact Or.inl (Partition.Beyond.lt_after hlast (Time.le_refl _))
    | atOnce hwork hpolicy hbehind htime' =>
      exact Or.inr ⟨htime', hbehind, hpriority⟩
    | later hfits htime' =>
      rw [htime']
      exact Or.inl (Period.lt_nextAfter hfits)

end ClockSet.Regular

namespace Dispatch

variable {q : Partition M} {d : Dispatch M} {e : Effect M}

theorem lt_due {s : Sent M.Payload} (hs : s ∈ d.sends)
    (hlast : d.partition.timeline.now < Time.never)
    (hlatency : ∀ (link : LinkId) (route : Route), d.partition.routes.get link = .ok route →
      1 ≤ route.latency) : d.partition.timeline.now < s.due := by
  have hmade := d.made_sends s hs
  have hsent : s.sentAt = d.partition.timeline.now := hmade.sentAt
  have hone := hlatency _ _ hmade.route
  unfold Sent.due
  rw [hsent]
  simp only [Time.lt_def, Time.ticks_after, Time.ticks_never] at *
  omega

/-- What a dispatch brings about is due later, or behind it at the same instant. -/
theorem brings (hregular : q.clocks.Regular True q.timeline) (hnext : q.next? = some d)
    (hexact : d.Exact) (heffect : e.Of d) (hfault : e.fault = none)
    (hlast : d.activity.time < Time.never)
    (hlatency : ∀ (link : LinkId) (route : Route), q.routes.get link = .ok route →
      1 ≤ route.latency) {x : Scheduled M.Payload} (hx : e.brought x) :
    Activity.Brings q.clocks.config.priority d.activity x := by
  have hnow := (Partition.agenda_of_next? hnext).2.1
  have hroutes := (Partition.Like.next? hnext).routes
  have hsent : ∀ s ∈ e.sends, d.activity.time < s.due := by
    intro s hs
    rw [heffect.sends] at hs
    rw [← hnow]
    exact lt_due hs (by rw [hnow]; exact hlast) (by rw [hroutes]; exact hlatency)
  rcases hx with hx | ⟨j, hx⟩
  · rcases List.mem_append.mp hx with hx | hx
    · obtain ⟨s, hs, _, rfl⟩ := Sent.mem_kept.mp hx
      exact Or.inl (hsent s hs)
    · exact hregular.brings_ticks hnext hexact heffect hfault hlast hx
  · obtain ⟨s, hs, _, _, rfl⟩ := Sent.mem_bound.mp hx
    exact Or.inl (hsent s hs)

end Dispatch

/-! ## Weights -/

/-- How much can still come of an activity before a stop: the more, the earlier it is due, and more
if clocks still have their turns at its instant. -/
def Activity.weight {π : Type} (stop : Time) (clock : Int) (a : Scheduled π) : Nat :=
  2 * (stop.ticks + 1 - a.time.ticks) + if a.priority < clock then 1 else 0

namespace Activity

variable {π : Type} {stop : Time} {clock : Int} {a x : Scheduled π}

/-- Of what is due up to the stop only lighter things come. -/
theorem Brings.weight_lt (h : Brings clock a x) (hstop : a.time ≤ stop) :
    x.weight stop clock < a.weight stop clock := by
  unfold weight
  rcases h with hlater | ⟨htime, hbefore, hpriority⟩
  · rw [Time.lt_def] at hlater
    rw [Time.le_def] at hstop
    split <;> split <;> omega
  · rw [htime, hpriority, if_neg (Int.lt_irrefl clock), if_pos hbefore]
    omega

end Activity

end Lookahead

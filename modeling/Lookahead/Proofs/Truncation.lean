import Lookahead.Proofs.Enacting
import Lookahead.Proofs.Mail
import Lookahead.Proofs.Twins

/-!
A stop takes nothing away from what happens before it.

Two cohorts that differ in their stops only match: partition by partition they are twins, until both
are past the stops. An exchange keeps that, since twins hand over the same and publish the same as
long as anything is due before the stops (`Cohort.Matches.exchange`). So every run of one simulation
is matched by a run of the other one that dispatches the same before the stops
(`Simulation.exists_match`).
-/

namespace Lookahead

variable {M : Model}

/-! ## Moments that are past an instant -/

/-- At such a moment nobody has anything left to dispatch before an instant. -/
def Moment.Past (time : Time) : Moment → Prop
  | .init _ => False
  | .timed least => time ≤ least
  | .complete _ => True
  | .finished => True

theorem Fits.past {S : Setting} {m : Moment} {s : Stance M} {time : Time} (h : Fits S m s)
    (hsafe : S.exact) (hpast : m.Past time) : s.Past time := by
  cases h with
  | preparing => exact hpast.elim
  | prepared => exact hpast.elim
  | running least p h => exact .running p fun a ha => Time.le_trans hpast (h.pending hsafe a ha)
  | meeting least p h =>
    refine .meeting p ?_
    rw [h.now]
    exact Time.le_trans hpast (Time.le_after ..)
  | leaving => exact .completing ..
  | left => exact .completed ..
  | gone => exact .ended ..
  | completing => exact .completing ..
  | completed => exact .completed ..
  | finished => exact .ended ..
  | failed => exact .failed ..

/-- Nothing that waits for others is due before the meeting. -/
theorem Fits.buffers {S : Setting} {m : Moment} {p : Partition M}
    (h : Fits S m (.ready ⟨.timed, p, .epoch⟩)) : p.Buffers S.exact p.timeline.now := by
  cases h with
  | meeting least p h hbuffers =>
    rw [h.now]
    exact hbuffers

/-! ## Exchanges past an instant -/

namespace Cohort.Agrees

variable {parties : List (Party M)} {S : Setting} {m : Moment} {least time : Time}

theorem meeting (h : Agrees (parties.map Stance.ready) S m)
    (hmeets : ∀ q ∈ parties, ∃ p, q = ⟨.timed, p, .epoch⟩ ∧ p.Meets S least) :
    ∀ q ∈ parties, q.work = .timed ∧ q.kind = .epoch ∧ q.partition.Meets S least ∧
      q.partition.Buffers S.exact (least.after S.window) := by
  intro q hq
  obtain ⟨p, rfl, hp⟩ := hmeets q hq
  refine ⟨rfl, rfl, hp, ?_⟩
  rw [← hp.now]
  exact (h.fits_mem hq).buffers

/-- Nothing is left to do at a meeting that is due before it. -/
theorem meeting_le_least (h : Agrees (parties.map Stance.ready) S m)
    (hmeets : ∀ q ∈ parties, ∃ p, q = ⟨.timed, p, .epoch⟩ ∧ p.Meets S least) :
    least.after S.window ≤ Party.least parties :=
  Party.meeting_le_least fun q hq => (h.meeting hmeets q hq).2

/-- Everyone is past an instant after a meeting where nothing was pending before it. -/
theorem past_of_meeting (h : Agrees (parties.map Stance.ready) S m)
    (hconforms : Conforms (parties.map Stance.ready) S)
    (hmeets : ∀ q ∈ parties, ∃ p, q = ⟨.timed, p, .epoch⟩ ∧ p.Meets S least)
    (hsafe : S.exact) (hpast : time ≤ Party.least parties) :
    ∀ s ∈ Cohort.exchanged parties, s.Past time := by
  intro s hs
  obtain ⟨j, hj⟩ := List.mem_iff_getElem?.mp hs
  refine (exchange_meeting (h.meeting hmeets) hconforms j s hj).past hsafe ?_
  split
  · split <;> trivial
  · exact hpast

/-- Those who are past an instant are so after an exchange. -/
theorem past_exchanged (h : Agrees (parties.map Stance.ready) S m)
    (hconforms : Conforms (parties.map Stance.ready) S) (hsafe : S.exact) (hne : parties ≠ [])
    (hpast : ∀ q ∈ parties, (Stance.ready q).Past time) :
    ∀ s ∈ Cohort.exchanged parties, s.Past time := by
  obtain ⟨first, hfirst⟩ := List.exists_mem_of_ne_nil parties hne
  cases h.convened hne with
  | init phase hall =>
    obtain ⟨p, own, rfl⟩ := hall first hfirst
    cases hpast _ hfirst
  | meeting least hstays hall =>
    refine h.past_of_meeting hconforms hall hsafe ?_
    obtain ⟨p, rfl, hp⟩ := hall first hfirst
    cases hpast _ hfirst with
    | meeting _ hnow =>
      rw [hp.now] at hnow
      exact Time.le_trans hnow (h.meeting_le_least hall)
  | complete phase hall =>
    intro s hs
    obtain ⟨j, hj⟩ := List.mem_iff_getElem?.mp hs
    obtain ⟨q, hq, rfl⟩ := getElem?_exchanged hj
    obtain ⟨stop, p, own, rfl⟩ := hall q (List.mem_of_getElem? hq)
    obtain ⟨q', hstance, _⟩ := Departs.stance_conclude_untimed (.complete phase stop) p own
      (Party.incoming parties j) (Party.least parties)
    rw [hstance]
    dsimp only
    split
    · exact .ended ..
    · exact .completing ..

/-- When everyone is ready, all of them are past an instant or none. -/
theorem past_or_not (h : Agrees (parties.map Stance.ready) S m) (hne : parties ≠ [])
    (time : Time) : (∀ q ∈ parties, (Stance.ready q).Past time) ∨
      ∀ q ∈ parties, ¬ (Stance.ready q).Past time := by
  cases h.convened hne with
  | init phase hall =>
    refine Or.inr fun q hq hpast => ?_
    obtain ⟨p, own, rfl⟩ := hall q hq
    cases hpast
  | meeting least hstays hall =>
    by_cases hle : time ≤ least.after S.window
    · refine Or.inl fun q hq => ?_
      obtain ⟨p, rfl, hp⟩ := hall q hq
      exact .meeting p (hp.now ▸ hle)
    · refine Or.inr fun q hq hpast => hle ?_
      obtain ⟨p, rfl, hp⟩ := hall q hq
      cases hpast with
      | meeting _ hnow => exact hp.now ▸ hnow
  | complete phase hall =>
    refine Or.inl fun q hq => ?_
    obtain ⟨stop, p, own, rfl⟩ := hall q hq
    exact .completed ..

end Cohort.Agrees

/-! ## Exchanges of twins -/

namespace Timeline.Alike

variable {π : Type} {timeline other : Timeline π} {time : Time}

/-- As long as something is due before the stops, it is due at the same time. -/
theorem nextTime_eq (h : timeline.Alike other)
    (hstops : ∀ a ∈ timeline.agenda, a.isStop = true → time ≤ a.time)
    (hstops' : ∀ a ∈ other.agenda, a.isStop = true → time ≤ a.time)
    (hearly : timeline.nextTime < time) : other.nextTime = timeline.nextTime := by
  cases hagenda : timeline.agenda with
  | nil =>
    rw [nextTime_of_agenda_nil hagenda] at hearly
    exact absurd hearly (Time.lt_irrefl_of_le (Time.le_never _))
  | cons a rest =>
    rw [nextTime_of_agenda_cons hagenda] at hearly ⊢
    have hstop : a.isStop = false := by
      refine Bool.eq_false_iff.mpr fun hstop => Time.lt_irrefl_of_le ?_ hearly
      exact hstops a (by rw [hagenda]; exact List.mem_cons_self ..) hstop
    obtain ⟨rest', hother, _⟩ := h.agenda_cons hagenda hearly hstop hstops'
    rw [nextTime_of_agenda_cons hother]

end Timeline.Alike

/-- Two partitions that are ready for the same and differ in their stops only. -/
inductive Party.Twins (q : Party M) : Party M → Prop
  | mk (p : Partition M) (h : q.partition.Twins p) : Twins q ⟨q.work, p, q.kind⟩

namespace Party.Twins

variable {q r : Party M} {incoming : List (Scheduled M.Payload)} {time : Time}

theorem symm (h : q.Twins r) : r.Twins q := by
  cases h with
  | mk p h => exact .mk q.partition h.symm

theorem outgoing_eq (h : q.Twins r) (j : PartitionId) : r.outgoing j = q.outgoing j := by
  cases h with
  | mk p h =>
    unfold outgoing outbox horizon
    rw [h.member, h.timeline.now]

/-- In a round of an untimed stage they publish the same. -/
theorem minimum_untimed (h : q.Twins r) {own : Nat} (hkind : q.kind = .untimed own) :
    r.minimum incoming = q.minimum incoming := by
  obtain ⟨work, p, kind⟩ := q
  cases hkind
  cases h with
  | mk p' h =>
    cases h with
    | mk timeline stopAt h => rfl

/-- They go on from a round of an untimed stage to the same place. -/
theorem conclude_untimed (h : q.Twins r) {phase own : Nat}
    (hwork : q.work = .init phase) (hkind : q.kind = .untimed own)
    (incoming : List (Scheduled M.Payload)) (least time : Time) :
    (q.conclude incoming least).stance.Matches time (r.conclude incoming least).stance := by
  obtain ⟨work, p, kind⟩ := q
  cases hwork
  cases hkind
  cases h with
  | mk p' h =>
    cases h with
    | mk timeline stopAt h =>
      unfold conclude Thread.afterRound
      by_cases hleast : least = Time.never
      · simp only [hleast, ne_eq, not_true_eq_false, decide_false]
        exact .running .timed _ _ (.mk timeline stopAt h)
      · simp only [hleast, ne_eq, not_false_eq_true, decide_true]
        exact .running (.init (phase + 1)) _ _ (.mk timeline stopAt h)

theorem taken (h : q.Twins r) (hkind : q.kind = .epoch)
    (hincoming : ∀ a ∈ incoming, a.isStop = false) :
    (q.taken incoming).Twins (r.taken incoming) := by
  obtain ⟨work, p, kind⟩ := q
  cases hkind
  cases h with
  | mk p' h =>
    cases h with
    | mk timeline stopAt h => exact .mk _ stopAt (h.addAll hincoming)

theorem conclude_epoch (h : q.Twins r) (hkind : q.kind = .epoch)
    (hincoming : ∀ a ∈ incoming, a.isStop = false) {least : Time} (hleast : least ≠ Time.never)
    (time : Time) :
    (q.conclude incoming least).stance.Matches time (r.conclude incoming least).stance := by
  have htaken := h.taken hkind hincoming
  obtain ⟨work, p, kind⟩ := q
  cases hkind
  cases h with
  | mk p' h =>
    unfold conclude
    simp only [hleast, ↓reduceIte]
    refine .running work _ _ ?_
    generalize Party.taken ⟨work, p, .epoch⟩ incoming = x at htaken
    generalize Party.taken ⟨work, p', .epoch⟩ incoming = y at htaken
    have hmeeting : ∀ a ∈ [(Activity.ofMeeting (Seat.nextMeeting least x.member.window) :
        Scheduled M.Payload)], a.isStop = false := by
      intro a ha
      rw [List.mem_singleton.mp ha]
      rfl
    cases htaken with
    | mk timeline stopAt h => exact .mk _ stopAt (h.addAll hmeeting)

end Party.Twins

namespace Party

variable {parties others : List (Party M)} {time : Time}

/-- Two cohorts that are ready and, one by one, differ in their stops only. -/
structure Paired (parties others : List (Party M)) : Prop where
  length : parties.length = others.length
  each : ∀ (j : Nat) (q r : Party M), parties[j]? = some q → others[j]? = some r → q.Twins r

/-- A meeting where nobody has a stop before an instant once everything is taken in. -/
structure Lasting (parties : List (Party M)) (time : Time) : Prop where
  kind : ∀ q ∈ parties, q.kind = .epoch
  incoming : ∀ (j : PartitionId), ∀ a ∈ incoming parties j, a.isStop = false
  stops : ∀ (j : Nat) (q : Party M), parties[j]? = some q →
    ∀ a ∈ (q.taken (Party.incoming parties j)).timeline.agenda, a.isStop = true → time ≤ a.time

namespace Paired

theorem symm (h : Paired parties others) : Paired others parties :=
  ⟨h.length.symm, fun j r q hr hq => (h.each j q r hq hr).symm⟩

theorem exists_twin (h : Paired parties others) {j : Nat} {q : Party M}
    (hq : parties[j]? = some q) : ∃ r, others[j]? = some r ∧ q.Twins r := by
  have hlt := (List.getElem?_eq_some_iff.mp hq).1
  rw [h.length] at hlt
  exact ⟨_, List.getElem?_eq_getElem hlt, h.each j q _ hq (List.getElem?_eq_getElem hlt)⟩

/-- Twins hand over the same. -/
theorem incoming_eq (h : Paired parties others) (j : PartitionId) :
    incoming parties j = incoming others j :=
  flatMap_congr_of_getElem? h.length fun k q r hq hr => ((h.each k q r hq hr).outgoing_eq j).symm

theorem least_eq (h : Paired parties others)
    (hminimum : ∀ (j : Nat) (q r : Party M), parties[j]? = some q → others[j]? = some r →
      r.minimum (incoming others j) = q.minimum (incoming parties j)) :
    least others = least parties := by
  have hminimums : (others.mapIdx fun j r => r.minimum (incoming others j)) =
      parties.mapIdx fun j q => q.minimum (incoming parties j) := by
    apply List.ext_getElem?
    intro j
    rw [List.getElem?_mapIdx, List.getElem?_mapIdx]
    cases hq : parties[j]? with
    | none =>
      rw [List.getElem?_eq_none (h.length ▸ List.getElem?_eq_none_iff.mp hq)]
      rfl
    | some q =>
      obtain ⟨r, hr, _⟩ := h.exists_twin hq
      rw [hr, Option.map_some, Option.map_some, hminimum j q r hq hr]
  unfold least
  rw [hminimums]

/-- At a meeting twins publish the same if something is due before the stops. -/
theorem minimum_eq (h : Paired parties others) (hlasting : Lasting parties time)
    (hlasting' : Lasting others time) {j : Nat} {q r : Party M} (hq : parties[j]? = some q)
    (hr : others[j]? = some r) (hearly : q.minimum (incoming parties j) < time) :
    r.minimum (incoming others j) = q.minimum (incoming parties j) := by
  have hkind := hlasting.kind q (List.mem_of_getElem? hq)
  have hstops' := hlasting'.stops j r hr
  rw [← h.incoming_eq j] at hstops' ⊢
  rw [minimum_epoch hkind] at hearly ⊢
  rw [minimum_epoch (hlasting'.kind r (List.mem_of_getElem? hr))]
  exact ((h.each j q r hq hr).taken hkind (hlasting.incoming j)).timeline.nextTime_eq
    (hlasting.stops j q hq) hstops' hearly

/-- If someone publishes that something is due before the stops, so does its twin. -/
theorem least_le_of_lt (h : Paired parties others) (hlasting : Lasting parties time)
    (hlasting' : Lasting others time) (hearly : least parties < time) :
    least others ≤ least parties := by
  obtain ⟨j, hj⟩ := List.mem_iff_getElem?.mp (Time.foldl_min_mem (Time.ne_never_of_lt hearly))
  rw [List.getElem?_mapIdx] at hj
  obtain ⟨q, hq, hmin⟩ := Option.map_eq_some_iff.mp hj
  have hmin : q.minimum (incoming parties j) = least parties := hmin
  obtain ⟨r, hr, _⟩ := h.exists_twin hq
  rw [← hmin, ← h.minimum_eq hlasting hlasting' hq hr (hmin ▸ hearly)]
  exact least_le_minimum hr

/-- As long as something is due before the stops, both sides agree on when. -/
theorem least_eq_of_lt (h : Paired parties others) (hlasting : Lasting parties time)
    (hlasting' : Lasting others time) (hearly : least parties < time ∨ least others < time) :
    least others = least parties := by
  rcases hearly with hearly | hearly
  · have hle := h.least_le_of_lt hlasting hlasting' hearly
    exact Time.le_antisymm hle
      (h.symm.least_le_of_lt hlasting' hlasting (Time.lt_of_le_of_lt hle hearly))
  · have hle := h.symm.least_le_of_lt hlasting' hlasting hearly
    exact Time.le_antisymm
      (h.least_le_of_lt hlasting hlasting' (Time.lt_of_le_of_lt hle hearly)) hle

end Paired

end Party

/-- Stops are no nearer when everything has been taken in at a meeting. -/
theorem Cohort.Agrees.lasting {parties : List (Party M)} {S : Setting} {m : Moment}
    {least time : Time} (h : Agrees (parties.map Stance.ready) S m)
    (hmeets : ∀ q ∈ parties, ∃ p, q = ⟨.timed, p, .epoch⟩ ∧ p.Meets S least)
    (hlasts : S.Lasts time) : Party.Lasting parties time := by
  have hall := h.meeting hmeets
  have hincoming := Party.mem_incoming fun q hq => (hall q hq).2
  refine ⟨fun q hq => (hall q hq).2.1, fun j a ha => ?_, fun j q hq => ?_⟩
  · exact (Activity.isWork_iff.mp (Activity.isDelivery_isWork (hincoming j a ha).2.2)).2
  · obtain ⟨_, hkind, hp, _⟩ := hall q (List.mem_of_getElem? hq)
    exact hlasts.le_of_isStop (hp.taken hkind (hincoming j)).stops

/-! ## Cohorts that match -/

/-- If one of two that match is ready and past an instant, the other one is past it, too. -/
theorem Stance.Matches.past_of_ready {q : Party M} {s : Stance M} {time : Time}
    (h : (Stance.ready q).Matches time s) (hpast : (Stance.ready q).Past time) : s.Past time := by
  cases h with
  | past _ _ _ h' => exact h'
  | ready work kind p p' h =>
    cases hpast with
    | meeting _ hnow => exact .meeting p' (h.timeline.now ▸ hnow)
    | completed => exact .completed ..

/-- Two cohorts match partition by partition. -/
structure Cohort.Matches (time : Time) (cohort other : Cohort M) : Prop where
  length : cohort.length = other.length
  each : ∀ (j : Nat) (s s' : Stance M), cohort[j]? = some s → other[j]? = some s' →
    s.Matches time s'

/-- A cohort as a run gets to it where no stop is configured before an instant. -/
structure Cohort.Underway (cohort : Cohort M) (S : Setting) (time : Time) : Prop where
  conforms : cohort.Conforms S
  agrees : ∃ m, cohort.Agrees S m
  safe : S.exact
  lasts : S.Lasts time

namespace Cohort.Matches

variable {cohort other next : Cohort M} {parties others : List (Party M)} {S S' : Setting}
  {m m' : Moment} {time : Time}

theorem symm (h : Cohort.Matches time cohort other) : Cohort.Matches time other cohort :=
  ⟨h.length.symm, fun j s s' hs hs' => (h.each j s' s hs' hs).symm⟩

/-- Twins go on to the same meeting, or both sides are past the stops from now on. -/
theorem meet_twins {least least' : Time} (htwins : Party.Paired parties others)
    (hmeets : ∀ q ∈ parties, ∃ p, q = ⟨.timed, p, .epoch⟩ ∧ p.Meets S least)
    (hmeets' : ∀ r ∈ others, ∃ p, r = ⟨.timed, p, .epoch⟩ ∧ p.Meets S' least')
    (hside : Underway (parties.map Stance.ready) S time)
    (hside' : Underway (others.map Stance.ready) S' time) :
    Cohort.Matches time (exchanged parties) (exchanged others) := by
  obtain ⟨m, hagrees⟩ := hside.agrees
  obtain ⟨m', hagrees'⟩ := hside'.agrees
  have hlasting := hagrees.lasting hmeets hside.lasts
  have hlasting' := hagrees'.lasting hmeets' hside'.lasts
  refine ⟨by simpa [length_exchanged] using htwins.length, fun j s s' hs hs' => ?_⟩
  by_cases hearly : Party.least parties < time ∨ Party.least others < time
  · have hleast := htwins.least_eq_of_lt hlasting hlasting' hearly
    have hnever : Party.least parties ≠ Time.never := by
      rw [hleast, or_self] at hearly
      exact Time.ne_never_of_lt hearly
    obtain ⟨q, hq, rfl⟩ := getElem?_exchanged hs
    obtain ⟨r, hr, rfl⟩ := getElem?_exchanged hs'
    rw [hleast, ← htwins.incoming_eq j]
    exact (htwins.each j q r hq hr).conclude_epoch (hlasting.kind q (List.mem_of_getElem? hq))
      (hlasting.incoming j) hnever time
  · have hle : time ≤ Party.least parties := Nat.le_of_not_lt fun h => hearly (Or.inl h)
    have hle' : time ≤ Party.least others := Nat.le_of_not_lt fun h => hearly (Or.inr h)
    exact .past _ _
      (hagrees.past_of_meeting hside.conforms hmeets hside.safe hle s (List.mem_of_getElem? hs))
      (hagrees'.past_of_meeting hside'.conforms hmeets' hside'.safe hle' s'
        (List.mem_of_getElem? hs'))

theorem exchange_twins (htwins : Party.Paired parties others) (hne : parties ≠ [])
    (hpast : ∀ q ∈ parties, ¬ (Stance.ready q).Past time)
    (hside : Underway (parties.map Stance.ready) S time)
    (hside' : Underway (others.map Stance.ready) S' time) :
    Cohort.Matches time (exchanged parties) (exchanged others) := by
  obtain ⟨m, hagrees⟩ := hside.agrees
  obtain ⟨m', hagrees'⟩ := hside'.agrees
  have hincoming := htwins.incoming_eq
  obtain ⟨first, hfirst⟩ := List.exists_mem_of_ne_nil parties hne
  cases hagrees.convened hne with
  | complete phase hall =>
    obtain ⟨stop, p, own, rfl⟩ := hall first hfirst
    exact absurd (.completed ..) (hpast _ hfirst)
  | init phase hall =>
    have hleast : Party.least others = Party.least parties := by
      refine htwins.least_eq fun k q r hq hr => ?_
      obtain ⟨p, own, rfl⟩ := hall q (List.mem_of_getElem? hq)
      rw [← hincoming k, (htwins.each k _ r hq hr).minimum_untimed rfl]
    refine ⟨by simpa [length_exchanged] using htwins.length, fun j s s' hs hs' => ?_⟩
    obtain ⟨q, hq, rfl⟩ := getElem?_exchanged hs
    obtain ⟨r, hr, rfl⟩ := getElem?_exchanged hs'
    obtain ⟨p, own, rfl⟩ := hall q (List.mem_of_getElem? hq)
    rw [hleast, ← hincoming j]
    exact (htwins.each j _ r hq hr).conclude_untimed rfl rfl ..
  | meeting least hstays hall =>
    -- the other side is in the same stage, since its parties are twins of those that meet
    obtain ⟨j, hj⟩ := List.mem_iff_getElem?.mp hfirst
    obtain ⟨other, hother, htwin⟩ := htwins.exists_twin hj
    have hmem := List.mem_of_getElem? hother
    have hwork : other.work = .timed := by
      obtain ⟨p, rfl, _⟩ := hall first hfirst
      cases htwin with
      | mk p' h => rfl
    cases hagrees'.convened (List.ne_nil_of_mem hmem) with
    | meeting least' _ hall' => exact meet_twins htwins hall hall' hside hside'
    | init phase hall' =>
      obtain ⟨p, own, rfl⟩ := hall' other hmem
      cases hwork
    | complete phase hall' =>
      obtain ⟨stop, p, own, rfl⟩ := hall' other hmem
      cases hwork

/-- If one of two cohorts that match exchanges, the other one can follow, unless it need not. -/
theorem exchange (h : Cohort.Matches time (parties.map Stance.ready) other) (hne : parties ≠ [])
    (hside : Underway (parties.map Stance.ready) S time) (hside' : other.Underway S' time) :
    Cohort.Matches time (exchanged parties) other ∨
      ∃ others, others ≠ [] ∧ other = others.map Stance.ready ∧
        Cohort.Matches time (exchanged parties) (exchanged others) := by
  have hlength : parties.length = other.length := by simpa using h.length
  obtain ⟨m, hagrees⟩ := hside.agrees
  rcases hagrees.past_or_not hne time with hpast | hpast
  · refine Or.inl ⟨by simpa [length_exchanged] using hlength, fun j s s' hs hs' => ?_⟩
    obtain ⟨q, hq, _⟩ := getElem?_exchanged hs
    exact .past _ _
      (hagrees.past_exchanged hside.conforms hside.safe hne hpast s (List.mem_of_getElem? hs))
      ((h.each j _ s' (getElem?_ready hq) hs').past_of_ready (hpast q (List.mem_of_getElem? hq)))
  · have htwin : ∀ (j : Nat) (q : Party M) (s : Stance M), parties[j]? = some q →
        other[j]? = some s → ∃ r, s = .ready r ∧ q.Twins r := by
      intro j q s hq hs
      have hmatches := h.each j _ s (getElem?_ready hq) hs
      cases hmatches with
      | past _ _ hnow => exact absurd hnow (hpast q (List.mem_of_getElem? hq))
      | ready work kind p p' hp => exact ⟨⟨work, p', kind⟩, rfl, .mk p' hp⟩
    obtain ⟨others, rfl⟩ : ∃ others : List (Party M), other = others.map Stance.ready := by
      refine exists_parties fun s hs => ?_
      obtain ⟨j, hj⟩ := List.mem_iff_getElem?.mp hs
      have hlt := (List.getElem?_eq_some_iff.mp hj).1
      rw [← hlength] at hlt
      obtain ⟨r, rfl, _⟩ := htwin j _ s (List.getElem?_eq_getElem hlt) hj
      exact ⟨r, rfl⟩
    rw [List.length_map] at hlength
    have htwins : Party.Paired parties others := by
      refine ⟨hlength, fun j q r hq hr => ?_⟩
      obtain ⟨r', hr', htwin⟩ := htwin j q (.ready r) hq (getElem?_ready hr)
      cases hr'
      exact htwin
    have hne' : others ≠ [] := by
      rintro rfl
      exact hne (List.length_eq_zero_iff.mp hlength)
    exact Or.inr ⟨others, hne', rfl, exchange_twins htwins hne hpast hside hside'⟩

/-! ## Steps and runs -/

theorem set_left (h : Cohort.Matches time cohort other) {i : Nat} {s s' : Stance M}
    (hi : other[i]? = some s') (hs : s.Matches time s') :
    Cohort.Matches time (cohort.set i s) other := by
  have hall := forall_set (P := fun j x => ∀ y, other[j]? = some y → Stance.Matches time x y)
    (i := i) (a := s) (fun j x _ hx y hy => h.each j x y hx hy) fun y hy => by
      obtain rfl := Option.some.inj (hi.symm.trans hy)
      exact hs
  exact ⟨List.length_set.trans h.length, fun j x y hx hy => hall j x hx y hy⟩

/-- Partitions at the same place move on, and still match. -/
theorem set (h : Cohort.Matches time cohort other) {i : Nat} {s s' : Stance M}
    (hi : i < other.length) (hs : s.Matches time s') :
    Cohort.Matches time (cohort.set i s) (other.set i s') := by
  have hall := forall_set (i := i) (a := s)
    (P := fun j x => ∀ y, (other.set i s')[j]? = some y → Stance.Matches time x y)
    (fun j x hji hx y hy => by
      rw [List.getElem?_set_ne hji.symm] at hy
      exact h.each j x y hx hy) fun y hy => by
      rw [List.getElem?_set_self hi] at hy
      cases hy
      exact hs
  have hlength : cohort.length = (other.set i s').length := h.length.trans List.length_set.symm
  exact ⟨List.length_set.trans hlength, fun j x y hx hy => hall j x hx y hy⟩

/-- Whatever one of two cohorts that match does, the other one can do enough to match it again and
to have dispatched the same before the stops, unless a clock overflows. -/
theorem step (h : Cohort.Matches time cohort other) (hside : cohort.Underway S time)
    (hside' : other.Underway S' time) {label : Option PartitionId}
    (hstep : cohort.step? label = some next)
    (hexact : ∀ entry ∈ (system M).note cohort label, entry.2.Exact) :
    ∃ labels trace other', (system M).Run other labels trace other' ∧
      Cohort.Matches time next other' ∧ (∀ entry ∈ trace, entry.2.Exact) ∧
      ∀ j, workBefore time ((system M).note cohort label) j = workBefore time trace j := by
  cases label with
  | none =>
    obtain ⟨parties, hne, rfl, rfl⟩ := exchange?_eq_some_iff.mp hstep
    rcases h.exchange hne hside hside' with hmatches | ⟨others, hne', rfl, hmatches⟩
    · exact ⟨[], [], other, .refl, hmatches, List.forall_mem_nil _, fun _ => rfl⟩
    · have hother : (system M).step? (others.map Stance.ready) none = some (exchanged others) :=
        exchange?_eq_some_iff.mpr ⟨others, hne', rfl, rfl⟩
      exact ⟨_, _, _, System.Run.refl.step hother, hmatches, List.forall_mem_nil _, fun _ => rfl⟩
  | some i =>
    obtain ⟨work, p, hi, rfl⟩ := step?_some_iff.mp hstep
    have hlt := (List.getElem?_eq_some_iff.mp hi).1
    rw [h.length] at hlt
    have hi' := List.getElem?_eq_getElem hlt
    generalize other[i] = s at hi'
    have hnote : ∀ (x : Cohort M) (q : Partition M), x[i]? = some (.running work q) →
        ∀ j, workBefore time ((system M).note x (some i)) j =
          if i = j then handledBefore time (work.dispatch? q).toList else [] := by
      intro x q hx j
      rw [note_of_running hx, workBefore_eq]
      by_cases hij : i = j
      · rw [if_pos hij, ← hij, seenOf_noteAt_self]
      · rw [if_neg hij, seenOf_noteAt_of_ne hij]
        rfl
    obtain ⟨m, hagrees⟩ := hside.agrees
    obtain ⟨m', hagrees'⟩ := hside'.agrees
    rw [note_of_running hi] at hexact
    have hdispatch : ∀ d, work.dispatch? p = some d → d.Exact := fun d hd =>
      hexact (i, d) (mem_noteAt.mpr ⟨rfl, hd⟩)
    rcases (h.each i _ s hi hi').workOn (hagrees i _ hi) (hagrees' i s hi') hside.lasts
      hside'.lasts hdispatch with
      ⟨hmatches, hnone⟩ | ⟨q, rfl, hmatches, hsame, hother⟩
    · refine ⟨[], [], other, .refl, h.set_left hi' hmatches, List.forall_mem_nil _, fun j => ?_⟩
      rw [hnote cohort p hi, hnone, ite_self]
      rfl
    · have hnext : (system M).step? other (some i) = some (other.set i
          (Thread.workOn work q).stance) := step?_some_iff.mpr ⟨work, q, hi', rfl⟩
      refine ⟨_, _, _, System.Run.refl.step hnext, h.set hlt hmatches, fun entry hentry => ?_,
        fun j => ?_⟩
      · rw [List.nil_append, note_of_running hi'] at hentry
        exact hother entry.2 (mem_noteAt.mp hentry).2
      · rw [List.nil_append, hnote cohort p hi, hnote other q hi', hsame]

end Cohort.Matches

theorem Partition.Fresh.twins_start {p : Partition M} {n i window : Nat} {stopAt : Option Time}
    {log : List (Planned M.Payload)} (h : p.Fresh n i window stopAt log) (later : Option Time) :
    p.start.Twins ({ p with stopAt := later } : Partition M).start := by
  have hagenda : ∀ stop : Option Time,
      ((p.timeline.addAll ({ p with stopAt := stop } : Partition M).appointments).agenda.filter
        fun a => !a.isStop) =
      ((p.timeline.addAll
        (if p.synchronized then [.ofMeeting p.member.nextSync] else [])).agenda.filter
          fun a => !a.isStop) := by
    intro stop
    unfold appointments
    rw [Timeline.addAll_append]
    refine Timeline.filter_agenda_addAll _ fun a ha => ?_
    obtain ⟨time, _, rfl⟩ := List.mem_map.mp ha
    rfl
  rw [start_eq, start_eq]
  refine .mk _ later ⟨?_, ?_, ?_, h.timeline.order.addAll _, h.timeline.order.addAll _⟩
  · rw [Timeline.now_addAll, Timeline.now_addAll]
  · rw [Timeline.priority_addAll, Timeline.priority_addAll]
  · exact (hagenda later).trans (hagenda p.stopAt).symm

namespace Simulation

variable {b b' : Builder M} {log : List (Planned M.Payload)} {simulation simulation' : Simulation M}
  {time : Time} {trace other : List (PartitionId × Dispatch M)} {machine final : Machine M}

/-- Whatever the stops are, the partitions match before the first step. -/
theorem matches_start (hb : b.Made log) (hbuild : b.build = .ok simulation) (later : Option Time)
    (time : Time) :
    Cohort.Matches time simulation.cohort (simulation.withStop later).cohort := by
  refine ⟨by simp [cohort, withStop], fun j s s' hs hs' => ?_⟩
  obtain ⟨p, hp, rfl⟩ := exists_stance_start hs
  have htwins := ((hb.build hbuild).2.2 j p hp).2.twins_start later
  unfold cohort withStop at hs'
  rw [List.map_map, List.getElem?_map, hp] at hs'
  cases hs'
  exact .running _ _ _ htwins

/-- Every run of the partitions with one stop in which no clock overflows is matched by such a run
with the other one. -/
theorem exists_match (hb : b.Made log) (hbuild : b.build = .ok simulation)
    (hb' : b'.Made log) (hbuild' : b'.build = .ok simulation')
    (hstart : Cohort.Matches time simulation.cohort simulation'.cohort)
    (hlasts : (b.setting simulation True).Lasts time)
    (hlasts' : (b'.setting simulation' True).Lasts time)
    {labels : List (Option PartitionId)} {cohort : Cohort M}
    (hrun : (Cohort.system M).Run simulation.cohort labels trace cohort)
    (hexact : ∀ entry ∈ trace, entry.2.Exact) :
    ∃ labels' trace' cohort', (Cohort.system M).Run simulation'.cohort labels' trace' cohort' ∧
      Cohort.Matches time cohort cohort' ∧ (∀ entry ∈ trace', entry.2.Exact) ∧
      ∀ j, workBefore time trace j = workBefore time trace' j := by
  induction hrun with
  | refl => exact ⟨[], [], _, .refl, hstart, List.forall_mem_nil _, fun _ => rfl⟩
  | @step labels trace x y label hrun hstep ih =>
    obtain ⟨hfirst, hnote⟩ := List.forall_mem_append.mp hexact
    obtain ⟨labels', trace', x', hrun', hmatches, hexact', hsame⟩ := ih hfirst
    obtain ⟨hconforms, hagrees⟩ := agrees_exact hb hbuild hrun hfirst
    obtain ⟨hconforms', hagrees'⟩ := agrees_exact hb' hbuild' hrun' hexact'
    obtain ⟨more, rest, y', hmore, hmatches', hlater, hrest⟩ :=
      hmatches.step ⟨hconforms, hagrees, trivial, hlasts⟩
        ⟨hconforms', hagrees', trivial, hlasts'⟩ hstep hnote
    refine ⟨_, _, y', hrun'.trans hmore, hmatches', List.forall_mem_append.mpr ⟨hexact', hlater⟩,
      fun j => ?_⟩
    rw [workBefore_append, workBefore_append, hsame j, hrest j]

end Simulation

end Lookahead

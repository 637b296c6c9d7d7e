import Lookahead.Proofs.Conservation
import Lookahead.Proofs.Course
import Lookahead.Proofs.Legs
import Lookahead.Proofs.Pace

/-!
The order of what a meeting brings.

Of the events of one instant a partition dispatches first what it had queued when it came to a
meeting, then what the meeting has brought, by the numbers of the senders and in the order of
sending, and then whatever came later (`Cohort.InTurn`).
-/

namespace Lookahead

variable {M : Model}

/-- Putting the lists of all positions one behind the other. -/
theorem flatMap_eq_range {α β : Type} {f : α → List β} {g : Nat → List β} (items : List α)
    (h : ∀ (j : Nat) (a : α), items[j]? = some a → f a = g j) :
    items.flatMap f = (List.range items.length).flatMap g := by
  induction items generalizing g with
  | nil => rfl
  | cons a rest ih =>
    have hrest : ∀ (j : Nat) (b : α), rest[j]? = some b → f b = g (j + 1) :=
      fun j b hj => h (j + 1) b hj
    rw [List.flatMap_cons, List.length_cons, List.range_succ_eq_map, List.flatMap_cons,
      List.flatMap_map, h 0 a rfl, ih hrest]

/-- What is dispatched later belongs to no earlier leg. -/
theorem posted_append_noteAt {number : Nat} {trace : List (PartitionId × Dispatch M)}
    {k : PartitionId} (h : number < (meetings (System.seenOf k trace)).length)
    (d : Option (Dispatch M)) (i j : PartitionId) :
    posted number (System.seenOf i (trace ++ noteAt k d)) j =
      posted number (System.seenOf i trace) j := by
  rw [System.seenOf_append]
  by_cases hki : k = i
  · subst hki
    rw [seenOf_noteAt_self]
    cases d with
    | none => rw [Option.toList_none, List.append_nil]
    | some d =>
      unfold posted
      rw [Option.toList_some, leg_concat_of_ne (by omega)]
  · rw [seenOf_noteAt_of_ne hki, List.append_nil]

theorem arrivals_append_noteAt {n number : Nat} {trace : List (PartitionId × Dispatch M)}
    {k : PartitionId} (h : number < (meetings (System.seenOf k trace)).length)
    (d : Option (Dispatch M)) (j : PartitionId) :
    arrivals n number (trace ++ noteAt k d) j = arrivals n number trace j := by
  unfold arrivals
  congr 1
  funext i
  exact posted_append_noteAt h d i j

/-- After each of its first meetings a partition takes, of the events of an instant, first those
that it had queued before, then those that the meeting has brought, and then those that came later.
-/
def Cohort.InTurn (cohort : Cohort M) (trace : List (PartitionId × Dispatch M))
    (number : Nat) : Prop :=
  ∀ (j : Nat) (s : Stance M), cohort[j]? = some s →
    ∀ front d back, System.seenOf j trace = front ++ d :: back → d.activity.isSync = true →
      (meetings front).length < number →
        ∀ x : Scheduled M.Payload, x.priority = Priority.event →
          ∃ later,
            (back.map fun e => e.activity.unnumbered).filter x.ties ++
                s.partition.timeline.agenda.filter x.ties =
              d.partition.timeline.agenda.filter x.ties ++
                (arrivals cohort.length (meetings front).length trace j).filter x.ties ++ later

/-- Whoever has come to the meeting that is next for everyone has done nothing since. -/
theorem Cohort.InLegs.eq_nil_of_le {cohort : Cohort M}
    {trace : List (PartitionId × Dispatch M)} {number j : Nat} {s : Stance M}
    (h : cohort.InLegs trace number) (hs : cohort[j]? = some s) {front back : List (Dispatch M)}
    {d : Dispatch M} (hseen : System.seenOf j trace = front ++ d :: back)
    (hsync : d.activity.isSync = true) (hle : number ≤ (meetings front).length) : back = [] := by
  have hcount := h.counted j s hs
  have hmany : number < (meetings (front ++ [d])).length := by
    rw [meetings_concat_of_sync hsync]
    exact Nat.lt_succ_of_le hle
  rcases List.eq_nil_or_concat back with rfl | ⟨rest, e, rfl⟩
  · rfl
  · have hsplit : front ++ d :: rest.concat e = ((front ++ [d]) ++ rest) ++ [e] := by simp
    cases hawaits : s.awaits with
    | false =>
      rw [hseen, hsplit, meetings_append, meetings_append, List.length_append,
        List.length_append, hawaits, if_neg Bool.false_ne_true] at hcount
      omega
    | true =>
      obtain ⟨front', d', q, hseen', hsync', _, _⟩ := h.last j s hs hawaits
      obtain ⟨rfl, hd⟩ := List.append_inj' ((hseen.trans hsplit).symm.trans hseen') rfl
      cases hd
      rw [hseen', meetings_concat_of_sync hsync', meetings_append, List.length_append, hawaits,
        if_pos rfl] at hcount
      omega

theorem Activity.ties_ofMeeting {x : Scheduled M.Payload} (h : x.priority = Priority.event)
    (time : Time) : x.ties (.ofMeeting time) = false := by
  rw [← Bool.not_eq_true, ties_iff, h]
  intro hboth
  have hne : Priority.event ≠ Priority.threadSync := by decide
  exact hne hboth.2

theorem Partition.filter_agenda_of_next? {p : Partition M} {d : Dispatch M}
    (h : p.next? = some d) (kind : Scheduled M.Payload → Bool) :
    p.timeline.agenda.filter kind =
      [d.activity.unnumbered].filter kind ++ d.partition.timeline.agenda.filter kind := by
  rw [(agenda_of_next? h).1, ← List.filter_append]
  rfl

namespace Cohort.InTurn

variable {cohort : Cohort M} {parties : List (Party M)} {trace : List (PartitionId × Dispatch M)}
  {number i : Nat} {work : Work} {p : Partition M}

theorem workOn (h : cohort.InTurn trace number) (hlegs : cohort.InLegs trace number)
    (hi : cohort[i]? = some (.running work p)) (horder : work = .timed → p.timeline.InOrder) :
    InTurn (cohort.set i (Thread.workOn work p).stance) (trace ++ noteAt i (work.dispatch? p))
      number := by
  have hcount : (meetings (System.seenOf i trace)).length = number := hlegs.counted i _ hi
  have hsteps := Thread.steps_workOn work p
  generalize (Thread.workOn work p).stance = s at hsteps
  generalize work.dispatch? p = dispatch at hsteps
  intro j r hr front d back hseen hsync hlt x hx
  have hearlier : (meetings front).length < (meetings (System.seenOf i trace)).length := by
    rw [hcount]
    exact hlt
  rw [List.length_set, arrivals_append_noteAt hearlier]
  rw [System.seenOf_append] at hseen
  by_cases hji : j = i
  · subst hji
    rw [getElem?_set_of_some hi] at hr
    cases hr
    rw [seenOf_noteAt_self] at hseen
    cases hsteps with
    | quiet hagenda htimed hawaits hpreparing =>
      rw [Option.toList_none, List.append_nil] at hseen
      obtain ⟨later, hlater⟩ := h j _ hi front d back hseen hsync hlt x hx
      rw [hagenda]
      exact ⟨later, hlater⟩
    | @dispatch _ e ticks hwork hnext hticks hagenda houtboxes hawaits hready hpreparing =>
      rw [Option.toList_some] at hseen
      rcases cut_of_snoc hseen with ⟨hfront, rfl, rfl⟩ | ⟨rest, rfl, hrest⟩
      · rw [hfront] at hcount
        omega
      · obtain ⟨later, hlater⟩ := h j _ hi front d rest hrest hsync hlt x hx
        have hqueued := Activity.filter_ties_placeAll x (Sent.kept e.sends ++ ticks)
          (Partition.inOrder_of_next? hnext (horder hwork))
        refine ⟨later ++ (Sent.kept e.sends ++ ticks).filter x.ties, ?_⟩
        rw [Stance.partition_running, Partition.filter_agenda_of_next? hnext x.ties] at hlater
        have hmore := congrArg (· ++ (Sent.kept e.sends ++ ticks).filter x.ties) hlater
        rw [hagenda, hqueued, List.map_append, List.filter_append, List.map_singleton]
        simpa only [List.append_assoc] using hmore
  · rw [List.getElem?_set_ne (Ne.symm hji)] at hr
    rw [seenOf_noteAt_of_ne (Ne.symm hji), List.append_nil] at hseen
    exact h j r hr front d back hseen hsync hlt x hx

/-- What comes in at a meeting was sent in the leg before it. -/
theorem incoming_eq_arrivals (hlegs : InLegs (parties.map Stance.ready) trace number)
    (hready : ∀ q ∈ parties, (∃ p, q = ⟨.timed, p, .epoch⟩) ∧
      q.partition.Buffers True q.partition.timeline.now) (j : PartitionId) :
    (Party.incoming parties j).map Activity.unnumbered =
      arrivals parties.length number trace j := by
  have hepoch : ∀ q ∈ parties, q.kind = .epoch ∧
      q.partition.Buffers True q.partition.timeline.now := by
    intro q hq
    obtain ⟨⟨p, rfl⟩, hbuffers⟩ := hready q hq
    exact ⟨rfl, hbuffers⟩
  rw [← transit_epoch trivial hepoch j, flatMap_eq_range (g := fun i =>
    posted number (System.seenOf i trace) j), List.length_map]
  · rfl
  · intro i s hs
    obtain ⟨q, hq, rfl⟩ := List.mem_map.mp (List.mem_of_getElem? hs)
    obtain ⟨⟨p, rfl⟩, _⟩ := hready q hq
    exact hlegs.outboxes i _ p hs rfl j

theorem meet (h : InTurn (parties.map Stance.ready) trace number)
    (hlegs : InLegs (parties.map Stance.ready) trace number)
    (hready : ∀ q ∈ parties, (∃ p, q = ⟨.timed, p, .epoch⟩ ∧ p.timeline.InOrder) ∧
      q.partition.Buffers True q.partition.timeline.now) :
    InTurn (exchanged parties) trace (number + 1) := by
  intro j s hs front d back hseen hsync hlt x hx
  obtain ⟨q, hq, rfl⟩ := getElem?_exchanged hs
  obtain ⟨⟨p, rfl, horder⟩, _⟩ := hready q (List.mem_of_getElem? hq)
  have hincoming := incoming_eq_arrivals hlegs (fun q hq => by
    obtain ⟨⟨p, hp, _⟩, hbuffers⟩ := hready q hq
    exact ⟨⟨p, hp⟩, hbuffers⟩) j
  have hagenda := (Party.conclude_meeting p (Party.incoming parties j)
    (Party.least parties)).2.2.2 x.ties (Activity.ties_ofMeeting hx)
  rw [hagenda, Timeline.filter_ties_addAll horder, hincoming, length_exchanged, List.length_map]
  rcases Nat.lt_succ_iff_lt_or_eq.mp hlt with hlt | heq
  · obtain ⟨later, hlater⟩ := h j _ (getElem?_ready hq) front d back hseen hsync hlt x hx
    rw [List.length_map] at hlater
    refine ⟨later ++ (arrivals parties.length number trace j).filter x.ties, ?_⟩
    rw [← List.append_assoc, ← List.append_assoc]
    exact congrArg (· ++ _) hlater
  · -- The meeting is the one that takes place, so nothing has been dispatched since.
    cases hlegs.eq_nil_of_le (getElem?_ready hq) hseen hsync (Nat.le_of_eq heq.symm)
    obtain ⟨front', d', q, hseen', _, hq', htimeline⟩ := hlegs.last j _ (getElem?_ready hq) rfl
    obtain ⟨rfl, hd⟩ := List.append_inj' (hseen'.symm.trans hseen) rfl
    cases hd
    cases hq'
    refine ⟨[], ?_⟩
    rw [← htimeline, heq, List.append_nil]
    rfl

/-- Everyone has a round of an untimed stage. -/
theorem talk (h : InTurn (parties.map Stance.ready) trace number)
    (hready : ∀ q ∈ parties, ∃ work p own, q = ⟨work, p, .untimed own⟩ ∧ work ≠ .timed) :
    InTurn (exchanged parties) trace number := by
  intro j s hs front d back hseen hsync hlt x hx
  obtain ⟨q, hq, rfl⟩ := getElem?_exchanged hs
  obtain ⟨work, p, own, rfl, hwork⟩ := hready q (List.mem_of_getElem? hq)
  obtain ⟨later, hlater⟩ := h j _ (getElem?_ready hq) front d back hseen hsync hlt x hx
  rw [(Party.conclude_stage hwork p own _ _).2.1, length_exchanged]
  exact ⟨later, hlater⟩

end Cohort.InTurn

/-! ## Runs -/

theorem Cohort.Agrees.epoch_or_stage {parties : List (Party M)} {S : Setting} {m : Moment}
    (h : Cohort.Agrees (parties.map Stance.ready) S m) (hne : parties ≠ []) :
    (∀ q ∈ parties, (∃ p, q = ⟨.timed, p, .epoch⟩ ∧ p.timeline.InOrder) ∧
      q.partition.Buffers S.exact q.partition.timeline.now) ∨
    ∀ q ∈ parties, ∃ work p own, q = ⟨work, p, .untimed own⟩ ∧ work ≠ .timed := by
  rcases h.convened hne with ⟨phase, hall⟩ | ⟨least, _, hall⟩ | ⟨phase, hall⟩
  · refine Or.inr fun q hq => ?_
    obtain ⟨p, own, rfl⟩ := hall q hq
    exact ⟨_, p, own, rfl, by simp⟩
  · refine Or.inl fun q hq => ?_
    obtain ⟨p, rfl, hmeets⟩ := hall q hq
    rcases h.kinds with hepoch | huntimed
    · exact ⟨⟨p, rfl, hmeets.order⟩, (hepoch _ hq).2⟩
    · obtain ⟨own, hown⟩ := huntimed _ hq
      cases hown
  · refine Or.inr fun q hq => ?_
    obtain ⟨stop, p, own, rfl⟩ := hall q hq
    exact ⟨_, p, own, rfl, by simp⟩

namespace Simulation

variable {b : Builder M} {log : List (Planned M.Payload)} {simulation : Simulation M}
  {labels : List (Option PartitionId)} {trace : List (PartitionId × Dispatch M)}
  {cohort : Cohort M}

theorem inLegs_start (hb : b.Made log) (hbuild : b.build = .ok simulation) :
    simulation.cohort.InLegs [] 0 := by
  have hstart : ∀ {j : Nat} {s : Stance M}, simulation.cohort[j]? = some s →
      s.awaits = false ∧ ∀ p, s.timed? = some p → ∀ k, p.outboxFor k = [] := by
    intro j s hs
    obtain ⟨p, hp, rfl⟩ := exists_stance_start hs
    obtain ⟨_, _, hfresh⟩ := hb.build hbuild
    obtain ⟨_, hj⟩ := hfresh j p hp
    have htransit := transit_start hj
    unfold Thread.start at htransit ⊢
    cases hlifecycle : p.lifecycle with
    | true => exact ⟨rfl, fun q hq => by cases hq⟩
    | false =>
      refine ⟨rfl, fun q hq k => ?_⟩
      cases hq
      rw [hlifecycle] at htransit
      exact htransit k
  constructor
  case counted =>
    intro j s hs
    rw [(hstart hs).1]
    rfl
  case last =>
    intro j s hs hawaits
    rw [(hstart hs).1] at hawaits
    cases hawaits
  case early => exact fun _ _ _ _ => rfl
  case outboxes => exact fun j s p hs hp k => (hstart hs).2 p hp k

/-- Throughout a run everyone is in the same leg. Whatever holds at the start holds throughout the
run too if it lasts while a partition works on, through a meeting, which ends a leg, and through a
round of an untimed stage. -/
theorem legs_run {P : Cohort M → List (PartitionId × Dispatch M) → Nat → Prop} (safe : Prop)
    (hb : b.Made log) (hbuild : b.build = .ok simulation) (hstart : P simulation.cohort [] 0)
    (hwork : ∀ {cohort : Cohort M} {labels trace number i work p},
      P cohort trace number → cohort.InLegs trace number →
        cohort[i]? = some (.running work p) → (work = .timed → p.timeline.InOrder) →
          (Cohort.system M).Run simulation.cohort labels (trace ++ noteAt i (work.dispatch? p))
              (cohort.set i (Thread.workOn work p).stance) →
            P (cohort.set i (Thread.workOn work p).stance)
              (trace ++ noteAt i (work.dispatch? p)) number)
    (hmeet : ∀ {parties : List (Party M)} {labels trace number},
      P (parties.map Stance.ready) trace number →
        Cohort.InLegs (parties.map Stance.ready) trace number →
          (∀ q ∈ parties, (∃ p, q = ⟨.timed, p, .epoch⟩ ∧ p.timeline.InOrder) ∧
            q.partition.Buffers safe q.partition.timeline.now) →
            (Cohort.system M).Run simulation.cohort labels trace (Cohort.exchanged parties) →
              P (Cohort.exchanged parties) trace (number + 1))
    (htalk : ∀ {parties : List (Party M)} {trace number},
      P (parties.map Stance.ready) trace number →
        (∀ q ∈ parties, ∃ work p own, q = ⟨work, p, .untimed own⟩ ∧ work ≠ .timed) →
          P (Cohort.exchanged parties) trace number)
    (hrun : (Cohort.system M).Run simulation.cohort labels trace cohort)
    (hexact : safe → ∀ entry ∈ trace, entry.2.Exact) :
    ∃ number, cohort.InLegs trace number ∧ P cohort trace number := by
  induction hrun with
  | refl => exact ⟨0, inLegs_start hb hbuild, hstart⟩
  | @step labels trace cohort next label hrun hstep ih =>
    have hbefore := fun hsafe entry hentry =>
      hexact hsafe entry (List.mem_append_left _ hentry)
    obtain ⟨number, hlegs, hholds⟩ := ih hbefore
    obtain ⟨_, m, hagrees⟩ := agrees_while hb hbuild hrun hbefore
    have hnext := hrun.step hstep
    cases label with
    | some i =>
      obtain ⟨work, p, hi, rfl⟩ := Cohort.step?_some_iff.mp hstep
      rw [Cohort.note_of_running hi] at hnext ⊢
      refine ⟨number, hlegs.workOn hi, hwork hholds hlegs hi (fun htimed => ?_) hnext⟩
      subst htimed
      cases hagrees i _ hi with
      | running least _ hontime _ => exact hontime.order
    | none =>
      obtain ⟨parties, hne, rfl, rfl⟩ := Cohort.exchange?_eq_some_iff.mp hstep
      have hnote : (Cohort.system M).note (parties.map Stance.ready) none = [] := rfl
      rw [hnote, List.append_nil] at hnext ⊢
      rcases hagrees.epoch_or_stage hne with hepoch | hstage
      · refine ⟨number + 1, hlegs.meet fun q hq => ?_, hmeet hholds hlegs hepoch hnext⟩
        obtain ⟨⟨p, hp, _⟩, _⟩ := hepoch q hq
        exact ⟨p, hp⟩
      · exact ⟨number, hlegs.talk hstage, htalk hholds hstage⟩

/-- Throughout a run everyone takes in turn what the meetings have brought. -/
theorem inTurn_run (hb : b.Made log) (hbuild : b.build = .ok simulation)
    (hrun : (Cohort.system M).Run simulation.cohort labels trace cohort)
    (hexact : ∀ entry ∈ trace, entry.2.Exact) :
    ∃ number, cohort.InLegs trace number ∧ cohort.InTurn trace number := by
  refine legs_run (P := Cohort.InTurn) True hb hbuild ?_ ?_ ?_ ?_ hrun fun _ => hexact
  · exact fun _ _ _ _ _ _ hseen => by simp at hseen
  · exact fun hturn hlegs hi horder _ => hturn.workOn hlegs hi horder
  · exact fun hturn hlegs hepoch _ => hturn.meet hlegs hepoch
  · exact fun hturn hstage => hturn.talk hstage

end Simulation

end Lookahead

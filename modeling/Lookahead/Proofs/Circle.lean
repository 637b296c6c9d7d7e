import Lookahead.Proofs.Acceptance
import Lookahead.Workload.Ring

/-!
How a ring is built.

A builder is described by what each of its partitions has got so far. The link ends are added in
three rounds: the sending ends of all partitions, which wait, the receiving ends, each of which is
wired to the end that has waited longest, and two ends in each partition that find each other at
once. So every partition sends to the next one, and no link between two of them is faster than the
window.
-/

namespace Lookahead

/-! ## Lists by position -/

section

variable {α : Type}

theorem getElem?_map_range (f : Nat → α) {n i : Nat} (hi : i < n) :
    ((List.range n).map f)[i]? = some (f i) := by
  rw [List.getElem?_map, List.getElem?_range hi]
  rfl

theorem getElem?_map_range_of_ge (f : Nat → α) {n i : Nat} (hi : n ≤ i) :
    ((List.range n).map f)[i]? = none :=
  List.getElem?_eq_none (by rw [List.length_map, List.length_range]; exact hi)

theorem modify_map_range (f : Nat → α) (n i : Nat) (g : α → α) :
    ((List.range n).map f).modify i g =
      (List.range n).map fun j => if j = i then g (f j) else f j := by
  apply List.ext_getElem?
  intro j
  rw [List.getElem?_modify]
  rcases Nat.lt_or_ge j n with hlt | hge
  · rw [getElem?_map_range _ hlt, getElem?_map_range _ hlt]
    by_cases hj : j = i
    · simp [hj]
    · simp [hj, Ne.symm hj]
  · rw [getElem?_map_range_of_ge _ hge, getElem?_map_range_of_ge _ hge]
    rfl

theorem set_map_range (f : Nat → α) (n i : Nat) (a : α) :
    ((List.range n).map f).set i a = (List.range n).map fun j => if j = i then a else f j := by
  apply List.ext_getElem?
  intro j
  rcases Nat.lt_or_ge j n with hlt | hge
  · rw [getElem?_map_range _ hlt]
    by_cases hj : j = i
    · subst hj
      rw [List.getElem?_set_self (by simpa using hlt), if_pos rfl]
    · rw [List.getElem?_set_ne (Ne.symm hj), getElem?_map_range _ hlt, if_neg hj]
  · rw [getElem?_map_range_of_ge _ hge, List.getElem?_eq_none (by simpa using hge)]

end

namespace Ring

/-! ## Builders by partition -/

/-- What the partitions of a builder have got so far, and the link ends that wait. -/
structure Plan where
  routes : PartitionId → List Route
  receivers : PartitionId → List (Option model.Receiver)
  timeline : PartitionId → Timeline model.Payload := fun _ => {}
  pending : List (String × LinkEnd) := []
  wired : Nat := 0

namespace Plan

def builder (plan : Plan) (n window : Nat) : Builder model where
  config := { partitions := n, window := some window }
  tables := (List.range n).map fun i => ⟨i, plan.routes i⟩
  setups := (List.range n).map fun i =>
    { timeline := plan.timeline i, receivers := plan.receivers i, clocks := {} }
  registry := ⟨plan.pending, plan.wired⟩

def nextEnd (plan : Plan) (i : PartitionId) : LinkEnd := ⟨i, (plan.routes i).length⟩

/-- A partition gets one more link end. -/
def push (plan : Plan) (i : PartitionId) (name : String) (latency : Nat)
    (receiver : Option model.Receiver) : Plan :=
  { plan with
    routes := fun j =>
      if j = i then plan.routes j ++ [{ name := name, latency := latency }] else plan.routes j
    receivers := fun j => if j = i then plan.receivers j ++ [receiver] else plan.receivers j }

/-- Sends on `e` are to arrive at `f`. -/
def connect (plan : Plan) (e f : LinkEnd) : Plan :=
  { plan with
    routes := fun j =>
      if j = e.partition then
        (plan.routes j).modify e.link fun route => { route with delivery := Delivery.between e f }
      else plan.routes j }

def stash (plan : Plan) (i : PartitionId) (name : String) (latency : Nat)
    (receiver : Option model.Receiver) : Plan :=
  { plan.push i name latency receiver with
    pending := plan.pending ++ [(name, plan.nextEnd i)] }

/-- A new end is wired to the one that has waited longest. -/
def pair (plan : Plan) (i : PartitionId) (name : String) (latency : Nat)
    (receiver : Option model.Receiver) (peer : LinkEnd) : Plan :=
  { ((plan.push i name latency receiver).connect (plan.nextEnd i) peer).connect peer
      (plan.nextEnd i) with
    pending := plan.pending.tail
    wired := plan.wired + 1 }

variable {plan other : Plan} {n window i : Nat} {name : String} {latency : Nat}
  {receiver : Option model.Receiver}

theorem builder_congr (hroutes : ∀ i < n, plan.routes i = other.routes i)
    (hreceivers : ∀ i < n, plan.receivers i = other.receivers i)
    (htimeline : ∀ i < n, plan.timeline i = other.timeline i)
    (hpending : plan.pending = other.pending) (hwired : plan.wired = other.wired) :
    plan.builder n window = other.builder n window := by
  have htables : (List.range n).map (fun i => (⟨i, plan.routes i⟩ : RouteTable)) =
      (List.range n).map fun i => ⟨i, other.routes i⟩ :=
    List.map_congr_left fun i hi => by rw [hroutes i (List.mem_range.mp hi)]
  have hsetups : (List.range n).map (fun i => ({
        timeline := plan.timeline i, receivers := plan.receivers i, clocks := {} } :
          PartitionSetup model)) =
      (List.range n).map fun i =>
        { timeline := other.timeline i, receivers := other.receivers i, clocks := {} } :=
    List.map_congr_left fun i hi => by
      rw [hreceivers i (List.mem_range.mp hi), htimeline i (List.mem_range.mp hi)]
  unfold builder
  rw [htables, hsetups, hpending, hwired]

theorem getElem?_setups (hi : i < n) : (plan.builder n window).setups[i]? =
    some { timeline := plan.timeline i, receivers := plan.receivers i, clocks := {} } :=
  getElem?_map_range _ hi

theorem table_builder (hi : i < n) : (plan.builder n window).table i = ⟨i, plan.routes i⟩ := by
  have htable : (plan.builder n window).tables[i]? = some ⟨i, plan.routes i⟩ :=
    getElem?_map_range _ hi
  unfold Builder.table
  rw [htable]
  rfl

theorem routeAt_builder (hi : i < n) (link : LinkId) :
    routeAt (plan.builder n window).tables ⟨i, link⟩ = (plan.routes i)[link]? := by
  have htable : (plan.builder n window).tables[i]? = some ⟨i, plan.routes i⟩ :=
    getElem?_map_range _ hi
  unfold routeAt
  rw [htable]
  rfl

theorem pushed_builder (hi : i < n) (receiver : Option model.Receiver) :
    (plan.builder n window).pushed i name latency =
      ((plan.push i name latency receiver).builder n window).tables := by
  have htables : (plan.builder n window).tables =
      (List.range n).map fun i => ⟨i, plan.routes i⟩ := rfl
  unfold Builder.pushed
  rw [table_builder hi, htables, set_map_range]
  refine List.map_congr_left fun j _ => ?_
  by_cases hj : j = i
  · simp [push, hj, RouteTable.push]
  · simp [push, hj]

theorem wire_builder (plan : Plan) (e f : LinkEnd) : wire (plan.builder n window).tables e f =
    ((plan.connect e f).builder n window).tables := by
  unfold wire builder
  rw [modify_map_range]
  refine List.map_congr_left fun j _ => ?_
  by_cases hj : j = e.partition
  · simp [connect, hj, RouteTable.setDelivery]
  · simp [connect, hj]

theorem nextEnd_builder (hi : i < n) : (plan.builder n window).nextEnd i = plan.nextEnd i := by
  unfold Builder.nextEnd
  rw [table_builder hi]
  rfl

theorem routeAt_push (plan : Plan) (window : Nat) (hi : i < n) (name : String) (latency : Nat)
    (receiver : Option model.Receiver) : routeAt
    ((plan.push i name latency receiver).builder n window).tables (plan.nextEnd i) =
      some { name := name, latency := latency } := by
  refine (routeAt_builder hi _).trans ?_
  simp [push]

theorem setups_push (name : String) (latency : Nat) : (plan.builder n window).setups.set i
    { timeline := plan.timeline i, receivers := plan.receivers i ++ [receiver], clocks := {} } =
      ((plan.push i name latency receiver).builder n window).setups := by
  unfold builder
  rw [set_map_range]
  refine List.map_congr_left fun j _ => ?_
  by_cases hj : j = i
  · simp [push, hj]
  · simp [push, hj]

/-- An end whose name nobody has used waits. -/
theorem addEnd_stash (hi : i < n)
    (hnone : (⟨plan.pending, plan.wired⟩ : Registry).stashed? name = none) :
    (plan.builder n window).addEnd i name latency receiver =
      .ok (plan.nextEnd i, (plan.stash i name latency receiver).builder n window) := by
  have hcheck := checkEnd_of_routeAt (routeAt_push plan window hi name latency receiver)
  have hregister : (plan.builder n window).registry.register
      ((plan.builder n window).pushed i name latency) name ((plan.builder n window).nextEnd i) =
      .ok (.pending, ⟨plan.pending ++ [(name, plan.nextEnd i)], plan.wired⟩,
        ((plan.push i name latency receiver).builder n window).tables) := by
    rw [pushed_builder hi receiver, nextEnd_builder hi]
    unfold Registry.register
    rw [hcheck, show (plan.builder n window).registry = ⟨plan.pending, plan.wired⟩ from rfl, hnone]
    rfl
  rw [Builder.addEnd_of_register (getElem?_setups hi) hregister, nextEnd_builder hi]
  unfold Builder.withEnd
  rw [setups_push name latency]
  rfl

/-- An end whose name is the first that waits is wired. -/
theorem addEnd_pair (hi : i < n) {peer : LinkEnd} {rest : List (String × LinkEnd)}
    (hpending : plan.pending = (name, peer) :: rest) (hpeer : peer.partition < n)
    (hlink : peer.link < (plan.routes peer.partition).length) :
    (plan.builder n window).addEnd i name latency receiver =
      .ok (plan.nextEnd i, (plan.pair i name latency receiver peer).builder n window) := by
  have hcheck := checkEnd_of_routeAt (routeAt_push plan window hi name latency receiver)
  have hfind : ∃ route, routeAt ((plan.push i name latency receiver).builder n window).tables
      peer = some route := by
    refine ⟨_, (routeAt_builder hpeer _).trans (List.getElem?_eq_getElem ?_)⟩
    unfold push
    dsimp only
    split
    · rw [List.length_append]
      exact Nat.lt_of_lt_of_le hlink (Nat.le_add_right _ _)
    · exact hlink
  obtain ⟨route, hroute⟩ := hfind
  have hne : peer ≠ plan.nextEnd i := by
    rintro rfl
    exact Nat.lt_irrefl _ hlink
  have hstashed : (⟨plan.pending, plan.wired⟩ : Registry).stashed? name = some peer := by
    simp [Registry.stashed?, hpending]
  have hregister : (plan.builder n window).registry.register
      ((plan.builder n window).pushed i name latency) name ((plan.builder n window).nextEnd i) =
      .ok (.wired peer, ⟨plan.pending.tail, plan.wired + 1⟩,
        ((plan.pair i name latency receiver peer).builder n window).tables) := by
    rw [pushed_builder hi receiver, nextEnd_builder hi]
    unfold Registry.register
    rw [hcheck, show (plan.builder n window).registry = ⟨plan.pending, plan.wired⟩ from rfl,
      hstashed]
    simp only [hne, ↓reduceIte, checkEnd_of_routeAt hroute, wire_builder]
    simp [hpending]
    rfl
  rw [Builder.addEnd_of_register (getElem?_setups hi) hregister, nextEnd_builder hi]
  unfold Builder.withEnd
  rw [setups_push name latency]
  rfl

def schedule (plan : Plan) (linkEnd : LinkEnd) (time : Time) (token : model.Payload) : Plan :=
  { plan with
    timeline := fun j =>
      if j = linkEnd.partition then
        (plan.timeline j).insert time Priority.event (.deliver ⟨linkEnd.link, token⟩)
      else plan.timeline j }

theorem scheduleEvent_builder {linkEnd : LinkEnd} (hi : linkEnd.partition < n)
    (hlink : linkEnd.link < (plan.routes linkEnd.partition).length) (time : Time)
    (token : model.Payload) : (plan.builder n window).scheduleEvent linkEnd time token =
      .ok ((plan.schedule linkEnd time token).builder n window) := by
  have hget : ((plan.builder n window).table linkEnd.partition).get linkEnd.link =
      .ok (plan.routes linkEnd.partition)[linkEnd.link] := by
    rw [table_builder hi]
    unfold RouteTable.get
    dsimp only
    rw [List.getElem?_eq_getElem hlink]
  have hsetups : (plan.builder n window).setups.set linkEnd.partition
      { timeline := (plan.timeline linkEnd.partition).insert time Priority.event
          (.deliver ⟨linkEnd.link, token⟩)
        receivers := plan.receivers linkEnd.partition, clocks := {} } =
      ((plan.schedule linkEnd time token).builder n window).setups := by
    unfold builder
    rw [set_map_range]
    refine List.map_congr_left fun j _ => ?_
    by_cases hj : j = linkEnd.partition
    · simp [schedule, hj]
    · simp [schedule, hj]
  have hsetup : (plan.builder n window).setup linkEnd.partition = .ok
      { timeline := plan.timeline linkEnd.partition
        receivers := plan.receivers linkEnd.partition, clocks := {} } := by
    unfold Builder.setup
    rw [getElem?_setups hi]
  unfold Builder.scheduleEvent Builder.withSetup
  rw [hsetup, hget]
  exact congrArg (fun setups => (Except.ok { plan.builder n window with setups } :
    Except ConfigError (Builder model))) hsetups

end Plan

/-! ## The way around -/

variable {n window tokens hops : Nat} {sources : Sources}

def after (n i : Nat) : Nat := (i + 1) % n

def before (n i : Nat) : Nat := (i + n - 1) % n

theorem after_lt {i : Nat} (hi : i < n) : after n i < n := Nat.mod_lt _ (Nat.zero_lt_of_lt hi)

theorem before_lt {i : Nat} (hi : i < n) : before n i < n := Nat.mod_lt _ (Nat.zero_lt_of_lt hi)

theorem before_after {i : Nat} (hi : i < n) : before n (after n i) = i := by
  unfold before after
  rcases Nat.lt_or_ge (i + 1) n with hlt | hge
  · rw [Nat.mod_eq_of_lt hlt, show i + 1 + n - 1 = i + n by omega, Nat.add_mod_right,
      Nat.mod_eq_of_lt hi]
  · rw [show i + 1 = n by omega, Nat.mod_self, Nat.zero_add, Nat.mod_eq_of_lt (by omega)]
    omega

theorem after_before {i : Nat} (hi : i < n) : after n (before n i) = i := by
  unfold before after
  rcases Nat.eq_zero_or_pos i with rfl | hpos
  · have hlast : (0 + n - 1) % n = n - 1 := by rw [Nat.zero_add, Nat.mod_eq_of_lt (by omega)]
    rw [hlast, show n - 1 + 1 = n by omega, Nat.mod_self]
  · have hprevious : (i + n - 1) % n = i - 1 := by
      rw [show i + n - 1 = i - 1 + n by omega, Nat.add_mod_right, Nat.mod_eq_of_lt (by omega)]
    rw [hprevious, show i - 1 + 1 = i by omega, Nat.mod_eq_of_lt hi]

/-- Only a partition that is alone is the one after itself. -/
theorem after_ne {i : Nat} (hi : i < n) (hmany : 1 < n) : after n i ≠ i := by
  unfold after
  rcases Nat.lt_or_ge (i + 1) n with hlt | hge
  · rw [Nat.mod_eq_of_lt hlt]
    omega
  · rw [show i + 1 = n by omega, Nat.mod_self]
    omega

/-! ## Stages of building -/

/-- The link that leaves a partition, as its sending end knows it once it is wired. -/
def outRoute (n window i : Nat) : Route where
  name := linkName i
  latency := window
  delivery := Delivery.between ⟨i, out⟩ ⟨after n i, 1⟩

/-- The same link as its receiving end knows it, at the partition after. -/
def inRoute (n window i : Nat) : Route where
  name := linkName (before n i)
  latency := window
  delivery := Delivery.between ⟨i, 1⟩ ⟨before n i, out⟩

def startRoutes : List Route :=
  [{ name := "start", latency := 0, delivery := .within 3 },
    { name := "start", latency := 0, delivery := .within 2 }]

/-- The tokens of the partition before are sent on, and those that start. -/
def arounds (n window : Nat) (sources : Sources) (i : Nat) : Hopper :=
  ⟨window, sources.around (before n i), 0⟩

def starter (window : Nat) (sources : Sources) (i : Nat) : Hopper := ⟨window, sources.kicks i, 0⟩

/-- The first `k` partitions can send. -/
def sending (window k : Nat) : Plan where
  routes i := if i < k then [{ name := linkName i, latency := window }] else []
  receivers i := if i < k then [none] else []
  pending := (List.range k).map fun i => (linkName i, ⟨i, out⟩)

/-- All can send, and the first `k` to somebody who receives. -/
def receiving (n window : Nat) (sources : Sources) (k : Nat) : Plan where
  routes i :=
    (if i < k then outRoute n window i else { name := linkName i, latency := window }) ::
      if before n i < k then [inRoute n window i] else []
  receivers i := none :: if before n i < k then [some (arounds n window sources i)] else []
  pending := ((List.range n).drop k).map fun i => (linkName i, ⟨i, out⟩)
  wired := k

def startTime (window tokens : Nat) (sources : Sources) (i k : Nat) : Time :=
  Time.ofNat (sources.starts (i * tokens + k) % (window * 4))

def startTimeline (window tokens hops : Nat) (sources : Sources) (i k : Nat) :
    Timeline model.Payload :=
  (List.range k).foldl (fun timeline k =>
    timeline.insert (startTime window tokens sources i k) Priority.event
      (.deliver ⟨2, ⟨hops⟩⟩)) {}

/-- The ring is closed, and tokens start at the first `m` partitions: all of them but at the last of
these, where it is the first `k`. -/
def starting (n window tokens hops : Nat) (sources : Sources) (m k : Nat) : Plan where
  routes i := outRoute n window i :: inRoute n window i :: if i < m then startRoutes else []
  receivers i := none :: some (arounds n window sources i) ::
    if i < m then [some (starter window sources i), none] else []
  timeline i := startTimeline window tokens hops sources i
    (if i + 1 < m then tokens else if i + 1 = m then k else 0)
  wired := n + m

theorem linkName_inj {i j : Nat} (h : linkName i = linkName j) : i = j := by
  have hdigits : Nat.toDigits 10 i = Nat.toDigits 10 j :=
    String.ofList_inj.mp ((String.append_right_inj "ring-").mp h)
  rw [← Nat.ofDigitChars_ten_toDigits (n := i), hdigits, Nat.ofDigitChars_ten_toDigits]

/-- Another partition can send. -/
theorem addOutputLink_sending {k : Nat} (hk : k < n) :
    ((sending window k).builder n window).addOutputLink k (linkName k) window =
      .ok (⟨k, out⟩, (sending window (k + 1)).builder n window) := by
  have hnone : (⟨(sending window k).pending, 0⟩ : Registry).stashed? (linkName k) = none := by
    unfold Registry.stashed?
    rw [Option.map_eq_none_iff, List.find?_eq_none]
    intro entry hentry
    obtain ⟨i, hi, rfl⟩ := List.mem_map.mp hentry
    have hne : linkName i ≠ linkName k := fun h =>
      Nat.ne_of_lt (List.mem_range.mp hi) (linkName_inj h)
    simpa using hne
  have hend : (sending window k).nextEnd k = ⟨k, out⟩ := by simp [Plan.nextEnd, sending, out]
  have hplan : ((sending window k).stash k (linkName k) window none).builder n window =
      (sending window (k + 1)).builder n window := by
    refine Plan.builder_congr (fun i _ => ?_) (fun i _ => ?_) (fun i _ => rfl) ?_ rfl
    · by_cases hi : i = k
      · simp [Plan.stash, Plan.push, sending, hi]
      · have hlt : i < k + 1 ↔ i < k := by omega
        simp only [Plan.stash, Plan.push, sending, hi, hlt, ↓reduceIte]
    · by_cases hi : i = k
      · simp [Plan.stash, Plan.push, sending, hi]
      · have hlt : i < k + 1 ↔ i < k := by omega
        simp only [Plan.stash, Plan.push, sending, hi, hlt, ↓reduceIte]
    · show (sending window k).pending ++ [(linkName k, (sending window k).nextEnd k)] = _
      rw [hend]
      simp [sending, List.range_succ]
  refine (Plan.addEnd_stash hk hnone).trans ?_
  rw [hend, hplan]

/-- Another partition can receive what is sent by the one before. -/
theorem addLink_receiving (window : Nat) (sources : Sources) {k : Nat} (hk : k < n) :
    ((receiving n window sources k).builder n window).addLink (after n k) (linkName k) window
        ⟨window, sources.around k, 0⟩ =
      .ok (⟨after n k, 1⟩, (receiving n window sources (k + 1)).builder n window) := by
  have hpending : (receiving n window sources k).pending = (linkName k, ⟨k, out⟩) ::
      ((List.range n).drop (k + 1)).map fun i => (linkName i, ⟨i, out⟩) := by
    have hdrop : (List.range n).drop k = k :: (List.range n).drop (k + 1) := by
      rw [List.drop_eq_getElem_cons (by simpa using hk), List.getElem_range]
    unfold receiving
    rw [hdrop]
    rfl
  have hend : (receiving n window sources k).nextEnd (after n k) = ⟨after n k, 1⟩ := by
    simp [Plan.nextEnd, receiving, before_after hk]
  have hplan : ((receiving n window sources k).pair (after n k) (linkName k) window
      (some ⟨window, sources.around k, 0⟩) ⟨k, out⟩).builder n window =
        (receiving n window sources (k + 1)).builder n window := by
    refine Plan.builder_congr (fun i hi => ?_) (fun i hi => ?_) (fun i _ => rfl) ?_ rfl
    · unfold Plan.pair
      rw [hend]
      by_cases hlast : i = after n k
      · have hbefore : before n i = k := by rw [hlast, before_after hk]
        by_cases hfirst : i = k
        · subst hfirst
          simp [Plan.push, Plan.connect, receiving, out, outRoute, inRoute, hbefore, ← hlast]
        · have hlt : i < k + 1 ↔ i < k := by omega
          simp only [Plan.push, Plan.connect, receiving, inRoute, hbefore, ← hlast, hfirst, hlt,
            ↓reduceIte, List.cons_append, List.nil_append, List.modify_succ_cons,
            List.modify_zero_cons, Nat.lt_irrefl, Nat.lt_add_one]
      · have hbefore : before n i < k + 1 ↔ before n i < k := by
          have hne : before n i ≠ k := fun h => hlast (by rw [← h, after_before hi])
          omega
        by_cases hfirst : i = k
        · subst hfirst
          simp only [Plan.push, Plan.connect, receiving, out, outRoute, hbefore, hlast, ↓reduceIte,
            List.modify_zero_cons, Nat.lt_irrefl, Nat.lt_add_one]
        · have hlt : i < k + 1 ↔ i < k := by omega
          simp only [Plan.push, Plan.connect, receiving, hbefore, hlast, hfirst, hlt, ↓reduceIte]
    · by_cases hlast : i = after n k
      · have hbefore : before n i = k := by rw [hlast, before_after hk]
        simp [Plan.pair, Plan.push, Plan.connect, receiving, arounds, hbefore, ← hlast]
      · have hbefore : before n i < k + 1 ↔ before n i < k := by
          have hne : before n i ≠ k := fun h => hlast (by rw [← h, after_before hi])
          omega
        simp only [Plan.pair, Plan.push, Plan.connect, receiving, hbefore, hlast, ↓reduceIte]
    · show (receiving n window sources k).pending.tail = _
      rw [hpending]
      rfl
  refine (Plan.addEnd_pair (after_lt hk) hpending hk (Nat.succ_pos _)).trans ?_
  rw [hend]
  exact congrArg (fun b => Except.ok (_, b)) hplan

/-- Once all can send, nobody receives yet. -/
theorem builder_sending (sources : Sources) : (sending window n).builder n window =
    (receiving n window sources 0).builder n window := by
  refine Plan.builder_congr (fun i hi => ?_) (fun i hi => ?_) (fun i _ => rfl) rfl rfl
  · simp [sending, receiving, hi]
  · simp [sending, receiving, hi]

theorem builder_receiving (tokens hops : Nat) : (receiving n window sources n).builder n window =
    (starting n window tokens hops sources 0 tokens).builder n window := by
  refine Plan.builder_congr (fun i hi => ?_) (fun i hi => ?_) (fun i _ => rfl) ?_ rfl
  · simp [receiving, starting, hi, before_lt hi]
  · simp [receiving, starting, before_lt hi]
  · simp [receiving, starting]

variable {m k : Nat}

/-- The tokens of another partition get the link on which they start. -/
theorem addLink_starting (window tokens hops : Nat) (sources : Sources) (hm : m < n) :
    ((starting n window tokens hops sources m tokens).builder n window).addLink m "start" 0
        (starter window sources m) =
      .ok (⟨m, 2⟩, ((starting n window tokens hops sources m tokens).stash m "start" 0
        (some (starter window sources m))).builder n window) := by
  refine (Plan.addEnd_stash hm rfl).trans ?_
  simp [Plan.nextEnd, starting]

theorem addOutputLink_starting (hm : m < n) :
    (((starting n window tokens hops sources m tokens).stash m "start" 0
        (some (starter window sources m))).builder n window).addOutputLink m "start" 0 =
      .ok (⟨m, 3⟩, (starting n window tokens hops sources (m + 1) 0).builder n window) := by
  have hpeer : (starting n window tokens hops sources m tokens).nextEnd m = ⟨m, 2⟩ := by
    simp [Plan.nextEnd, starting]
  have hpending : ((starting n window tokens hops sources m tokens).stash m "start" 0
      (some (starter window sources m))).pending = [("start", ⟨m, 2⟩)] :=
    congrArg (fun e => [("start", e)]) hpeer
  have hend : ((starting n window tokens hops sources m tokens).stash m "start" 0
      (some (starter window sources m))).nextEnd m = ⟨m, 3⟩ := by
    simp [Plan.nextEnd, Plan.stash, Plan.push, starting]
  have hcount : ∀ i : Nat, (if i + 1 < m then tokens else if i + 1 = m then tokens else 0) =
      if i + 1 < m + 1 then tokens else if i + 1 = m + 1 then 0 else 0 := by
    intro i
    rcases Nat.lt_or_ge i m with hlt | hge
    · rw [if_pos (show i + 1 < m + 1 by omega)]
      split
      · rfl
      · rw [if_pos (by omega)]
    · rw [if_neg (by omega), if_neg (by omega), if_neg (by omega)]
      split <;> rfl
  have hplan : (((starting n window tokens hops sources m tokens).stash m "start" 0
      (some (starter window sources m))).pair m "start" 0 none ⟨m, 2⟩).builder n window =
        (starting n window tokens hops sources (m + 1) 0).builder n window := by
    refine Plan.builder_congr (fun i _ => ?_) (fun i _ => ?_) (fun i _ => ?_) ?_ rfl
    · unfold Plan.pair
      rw [hend]
      by_cases hi : i = m
      · subst hi
        simp [Plan.stash, Plan.push, Plan.connect, starting, startRoutes, Delivery.between]
      · have hlt : i < m + 1 ↔ i < m := by omega
        simp only [Plan.stash, Plan.push, Plan.connect, starting, hi, hlt, ↓reduceIte]
    · by_cases hi : i = m
      · subst hi
        simp [Plan.pair, Plan.stash, Plan.push, Plan.connect, starting]
      · have hlt : i < m + 1 ↔ i < m := by omega
        simp only [Plan.pair, Plan.stash, Plan.push, Plan.connect, starting, hi, hlt, ↓reduceIte]
    · exact congrArg (startTimeline window tokens hops sources i) (hcount i)
    · exact congrArg List.tail hpending
  refine (Plan.addEnd_pair hm hpending hm ?_).trans ?_
  · simp [Plan.stash, Plan.push, starting]
  · rw [hend]
    exact congrArg (fun b => Except.ok (_, b)) hplan

theorem scheduleEvent_starting (hm : m < n) :
    ((starting n window tokens hops sources (m + 1) k).builder n window).scheduleEvent ⟨m, 2⟩
        (startTime window tokens sources m k) ⟨hops⟩ =
      .ok ((starting n window tokens hops sources (m + 1) (k + 1)).builder n window) := by
  have hplan : ((starting n window tokens hops sources (m + 1) k).schedule ⟨m, 2⟩
      (startTime window tokens sources m k) ⟨hops⟩).builder n window =
        (starting n window tokens hops sources (m + 1) (k + 1)).builder n window := by
    refine Plan.builder_congr (fun i _ => rfl) (fun i _ => rfl) (fun i _ => ?_) rfl rfl
    by_cases hi : i = m
    · subst hi
      simp [Plan.schedule, starting, startTimeline, List.range_succ]
    · simp [Plan.schedule, starting, hi]
  refine (Plan.scheduleEvent_builder hm ?_ _ _).trans (congrArg Except.ok hplan)
  simp [starting, startRoutes]

/-! ## The whole ring -/

/-- Steps that lead from each state to the next one lead through all of them. -/
theorem foldlM_range {ε β : Type} {f : β → Nat → Except ε β} {s : Nat → β}
    (h : ∀ k < n, f (s k) k = .ok (s (k + 1))) :
    (List.range n).foldlM f (s 0) = .ok (s n) := by
  induction n with
  | zero => rfl
  | succ n ih =>
    rw [List.range_succ, List.foldlM_append, ih fun k hk => h k (Nat.lt_succ_of_lt hk)]
    show List.foldlM f (s n) [n] = _
    rw [List.foldlM_cons, h n (Nat.lt_succ_self n)]
    rfl

def builder (n window tokens hops : Nat) (sources : Sources) : Builder model :=
  (starting n window tokens hops sources n tokens).builder n window

theorem ofConfig_eq (hn : 1 ≤ n) (hwindow : 1 ≤ window) :
    Builder.ofConfig { partitions := n, window := some window } =
      .ok ((sending window 0).builder n window) := by
  have hvalid : ({ partitions := n, window := some window } : Config).validate = .ok () := by
    have hpositive : ¬n = 0 := Nat.ne_of_gt hn
    have hsome : ¬some window = some 0 := fun h => Nat.ne_of_gt hwindow (Option.some.inj h)
    unfold Config.validate
    simp only [hpositive, hsome, ↓reduceIte]
    rfl
  have hsetups : List.replicate n ({ clocks := {} } : PartitionSetup model) =
      (List.range n).map fun _ => { clocks := {} } := by
    rw [List.map_const', List.length_range]
  unfold Builder.ofConfig
  rw [hvalid]
  exact congrArg (fun setups => (Except.ok {
    (sending window 0).builder n window with setups := setups } :
      Except ConfigError (Builder model))) hsetups

theorem addOutputs_eq : addOutputs n window ((sending window 0).builder n window) =
    .ok ((sending window n).builder n window) :=
  foldlM_range (s := fun k => (sending window k).builder n window) fun k hk => by
    simp only [addOutputLink_sending hk]
    rfl

theorem addInputs_eq :
    addInputs n window sources ((receiving n window sources 0).builder n window) =
      .ok ((receiving n window sources n).builder n window) :=
  foldlM_range (s := fun k => (receiving n window sources k).builder n window) fun k hk => by
    have hlink := addLink_receiving window sources hk
    unfold after at hlink
    simp only [hlink]
    rfl

theorem addTokens_eq (hm : m < n) :
    addTokens window tokens hops sources
        ((starting n window tokens hops sources m tokens).builder n window) m =
      .ok ((starting n window tokens hops sources (m + 1) tokens).builder n window) := by
  have htokens := foldlM_range (n := tokens)
    (f := fun (b : Builder model) k =>
      b.scheduleEvent ⟨m, 2⟩ (startTime window tokens sources m k) ⟨hops⟩)
    (s := fun k => (starting n window tokens hops sources (m + 1) k).builder n window)
    fun k _ => scheduleEvent_starting hm
  have hlink := addLink_starting window tokens hops sources hm
  unfold starter at hlink
  unfold addTokens
  rw [hlink]
  show (do
    let opened ← (((starting n window tokens hops sources m tokens).stash m "start" 0
      (some (starter window sources m))).builder n window).addOutputLink m "start" 0
    (List.range tokens).foldlM (fun (b : Builder model) k =>
      b.scheduleEvent ⟨m, 2⟩ (startTime window tokens sources m k) ⟨hops⟩) opened.2) = _
  rw [addOutputLink_starting hm]
  exact htokens

theorem simulation_eq (hn : 1 ≤ n) (hwindow : 1 ≤ window) :
    simulation n window tokens hops sources = (builder n window tokens hops sources).build := by
  have htokens := foldlM_range (n := n) (f := addTokens window tokens hops sources)
    (s := fun m => (starting n window tokens hops sources m tokens).builder n window)
    fun m hm => addTokens_eq hm
  unfold simulation
  rw [ofConfig_eq hn hwindow]
  show (do
    let b ← addOutputs n window ((sending window 0).builder n window)
    let b ← addInputs n window sources b
    let b ← (List.range n).foldlM (addTokens window tokens hops sources) b
    b.build) = _
  rw [addOutputs_eq]
  show (do
    let b ← addInputs n window sources ((sending window n).builder n window)
    let b ← (List.range n).foldlM (addTokens window tokens hops sources) b
    b.build) = _
  rw [builder_sending sources, addInputs_eq]
  show (do
    let b ← (List.range n).foldlM (addTokens window tokens hops sources)
      ((receiving n window sources n).builder n window)
    b.build) = _
  rw [builder_receiving tokens hops, htokens]
  rfl

/-! ## The tokens that start -/

structure Starts (window hops : Nat) (e : Planned model.Payload) : Prop where
  link : e.target.link = 2
  soon : e.time.ticks < 4 * window
  priority : e.priority = Priority.event
  token : e.payload = (⟨hops⟩ : Token)

theorem starts_starting (hwindow : 1 ≤ window) :
    Starts window hops ⟨⟨m, 2⟩, startTime window tokens sources m k, Priority.event, ⟨hops⟩⟩ where
  link := rfl
  soon := by
    have hmod : sources.starts (m * tokens + k) % (window * 4) < window * 4 :=
      Nat.mod_lt _ (by omega)
    have hmin : (startTime window tokens sources m k).ticks ≤
        sources.starts (m * tokens + k) % (window * 4) := Nat.min_le_left _ _
    show (startTime window tokens sources m k).ticks < 4 * window
    omega
  priority := rfl
  token := rfl

def Raised (window hops count : Nat) (b : Builder model) : Prop :=
  ∃ log, b.Made log ∧ log.length = count ∧ ∀ e ∈ log, Starts window hops e

theorem raised_sending (hn : 1 ≤ n) (hwindow : 1 ≤ window) (hk : k ≤ n) :
    Raised window hops 0 ((sending window k).builder n window) := by
  induction k with
  | zero => exact ⟨[], .ofConfig (ofConfig_eq hn hwindow), rfl, List.forall_mem_nil _⟩
  | succ k ih =>
    obtain ⟨log, hmade, hlog⟩ := ih (Nat.le_of_succ_le hk)
    exact ⟨log, hmade.addEnd (addOutputLink_sending hk), hlog⟩

theorem raised_receiving (hn : 1 ≤ n) (hwindow : 1 ≤ window) (hk : k ≤ n) :
    Raised window hops 0 ((receiving n window sources k).builder n window) := by
  induction k with
  | zero =>
    rw [← builder_sending]
    exact raised_sending hn hwindow (Nat.le_refl n)
  | succ k ih =>
    obtain ⟨log, hmade, hlog⟩ := ih (Nat.le_of_succ_le hk)
    exact ⟨log, hmade.addEnd (addLink_receiving window sources hk), hlog⟩

theorem Raised.partition (hwindow : 1 ≤ window) (hm : m < n)
    (h : Raised window hops (m * tokens)
      ((starting n window tokens hops sources m tokens).builder n window)) (k : Nat) :
    Raised window hops (m * tokens + k)
      ((starting n window tokens hops sources (m + 1) k).builder n window) := by
  induction k with
  | zero =>
    obtain ⟨log, hmade, hlog⟩ := h
    exact ⟨log,
      (hmade.addEnd (addLink_starting window tokens hops sources hm)).addEnd
        (addOutputLink_starting hm), hlog⟩
  | succ k ih =>
    obtain ⟨log, hmade, hlength, hstarts⟩ := ih
    refine ⟨_, hmade.scheduleEvent (scheduleEvent_starting hm), ?_, ?_⟩
    · rw [List.length_append, hlength]
      rfl
    · exact List.forall_mem_append.mpr
        ⟨hstarts, List.forall_mem_singleton.mpr (starts_starting hwindow)⟩

theorem raised_starting (hn : 1 ≤ n) (hwindow : 1 ≤ window) (hm : m ≤ n) :
    Raised window hops (m * tokens)
      ((starting n window tokens hops sources m tokens).builder n window) := by
  induction m with
  | zero =>
    rw [← builder_receiving, Nat.zero_mul]
    exact raised_receiving hn hwindow (Nat.le_refl n)
  | succ m ih =>
    rw [Nat.succ_mul]
    exact (ih (Nat.le_of_succ_le hm)).partition hwindow hm tokens

/-! ## What the ring is like -/

theorem raised_builder (hn : 1 ≤ n) (hwindow : 1 ≤ window) :
    Raised window hops (n * tokens) (builder n window tokens hops sources) :=
  raised_starting hn hwindow (Nat.le_refl n)

/-- No link between two partitions is faster or slower than the window. -/
theorem latency_of_crosses {route : Route}
    (h : route ∈ (builder n window tokens hops sources).crossRoutes) : route.latency = window := by
  obtain ⟨table, htable, hroute⟩ := List.mem_flatMap.mp h
  obtain ⟨i, hi, rfl⟩ := List.mem_map.mp htable
  obtain ⟨hroute, hcrosses⟩ := List.mem_filter.mp hroute
  replace hroute : route ∈ outRoute n window i :: inRoute n window i ::
    if i < n then startRoutes else [] := hroute
  rw [if_pos (List.mem_range.mp hi)] at hroute
  simp only [startRoutes, List.mem_cons, List.not_mem_nil, or_false] at hroute
  rcases hroute with rfl | rfl | rfl | rfl
  · rfl
  · rfl
  · cases hcrosses
  · cases hcrosses

theorem window_builder :
    (builder n window tokens hops sources).window = .ok window := by
  have hconfig : (builder n window tokens hops sources).config.window = some window := rfl
  unfold Builder.window
  rw [hconfig]
  cases hfastest : Builder.fastest? (builder n window tokens hops sources).crossRoutes with
  | none => rfl
  | some route =>
    obtain ⟨front, back, hroutes, -, -⟩ := Builder.fastest?_split hfastest
    have hmem : route ∈ (builder n window tokens hops sources).crossRoutes := by
      rw [hroutes]
      simp
    have hlatency := latency_of_crosses hmem
    simp [hlatency]

def circle (n window tokens hops : Nat) (sources : Sources) : Simulation model :=
  ⟨(builder n window tokens hops sources).setups.mapIdx
    ((builder n window tokens hops sources).partition window), window⟩

theorem build_builder :
    (builder n window tokens hops sources).build = .ok (circle n window tokens hops sources) := by
  rw [Builder.build_of_settled rfl, window_builder]
  rfl

theorem simulation_eq_circle (hn : 1 ≤ n) (hwindow : 1 ≤ window) :
    simulation n window tokens hops sources = .ok (circle n window tokens hops sources) :=
  (simulation_eq hn hwindow).trans build_builder

theorem partitions_builder : (builder n window tokens hops sources).partitions = n := by
  simp [Builder.partitions, builder, Plan.builder]

theorem size_circle : (circle n window tokens hops sources).partitions.length = n := by
  simp [circle, builder, Plan.builder]

theorem lifecycle_builder : (builder n window tokens hops sources).lifecycle = false := by
  unfold Builder.lifecycle
  rw [List.any_eq_false]
  intro setup hsetup
  obtain ⟨i, -, rfl⟩ := List.mem_map.mp hsetup
  exact Bool.false_ne_true

/-- Every partition sends to the one after it. -/
theorem get_out {i : Nat} (hi : i < n) :
    ((builder n window tokens hops sources).table i).get out = .ok (outRoute n window i) := by
  have htable : (builder n window tokens hops sources).table i =
      ⟨i, (starting n window tokens hops sources n tokens).routes i⟩ := Plan.table_builder hi
  rw [htable]
  rfl

/-- At first nothing but tokens is due. -/
theorem isDelivery_of_mem_startTimeline {i k : Nat} : ∀ a ∈
    (startTimeline window tokens hops sources i k).agenda, a.isDelivery = true := by
  induction k with
  | zero =>
    intro a ha
    cases ha
  | succ k ih =>
    intro a ha
    unfold startTimeline at ha
    rw [List.range_succ, List.foldl_append] at ha
    rcases Timeline.mem_agenda_add.mp ha with rfl | ha
    · rfl
    · exact ih a ha

/-- A partition of the ring has handlers for tokens that come around and for those that start. -/
theorem eq_partition {i : Nat} {p : Partition model}
    (hp : (circle n window tokens hops sources).partitions[i]? = some p) :
    i < n ∧ p = (builder n window tokens hops sources).partition window i {
      timeline := (starting n window tokens hops sources n tokens).timeline i
      receivers := [none, some (arounds n window sources i), some (starter window sources i), none]
      clocks := {} } := by
  have hi : i < n := by
    have hlt := (List.getElem?_eq_some_iff.mp hp).1
    rwa [size_circle] at hlt
  have hsetup : (builder n window tokens hops sources).setups[i]? = some _ :=
    Plan.getElem?_setups hi
  have hreceivers : (starting n window tokens hops sources n tokens).receivers i =
      [none, some (arounds n window sources i), some (starter window sources i), none] := by
    show none :: some (arounds n window sources i) :: (if i < n then
      [some (starter window sources i), none] else []) = _
    rw [if_pos hi]
  unfold circle at hp
  rw [List.getElem?_mapIdx, hsetup, hreceivers] at hp
  cases hp
  exact ⟨hi, rfl⟩

end Ring

end Lookahead

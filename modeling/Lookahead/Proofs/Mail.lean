import Lookahead.Proofs.Meeting
import Lookahead.Proofs.Deeds

/-!
Untimed rounds: what partitions sent in a phase comes to the link ends that it is for.

All that comes to a link end was sent on the one end that is wired to it, in the order of sending,
and comes behind what could be read there before (`Row.passed`).
-/

namespace Lookahead

/-! ## Wired ends -/

def Wired (tables : List RouteTable) (e f : LinkEnd) : Prop :=
  ∃ route, routeAt tables e = some route ∧ route.delivery.leads e = some f

theorem Wired.lt {tables : List RouteTable} {e f : LinkEnd} (h : Wired tables e f) :
    e.partition < tables.length := by
  obtain ⟨route, hroute, _⟩ := h
  obtain ⟨table, htable, _⟩ := Option.bind_eq_some_iff.mp hroute
  exact (List.getElem?_eq_some_iff.mp htable).1

namespace Wiring

variable {tables : List RouteTable} {pending : List (String × LinkEnd)} {e e' f : LinkEnd}
  {i : PartitionId} {table : RouteTable}

theorem wired_symm (h : Wiring tables pending) (hwired : Wired tables e f) : Wired tables f e := by
  obtain ⟨route, hroute, hleads⟩ := hwired
  obtain ⟨_, back, hback, _, hreturn⟩ := h.paired e f route hroute hleads
  exact ⟨back, hback, hreturn⟩

theorem wired_unique (h : Wiring tables pending) (hwired : Wired tables e f)
    (hwired' : Wired tables e' f) : e' = e := by
  obtain ⟨back, hback, hleads⟩ := h.wired_symm hwired
  obtain ⟨back', hback', hleads'⟩ := h.wired_symm hwired'
  rw [hback] at hback'
  cases hback'
  rw [hleads] at hleads'
  exact (Option.some.inj hleads').symm

theorem serves (h : Wiring tables pending) (htable : tables[i]? = some table) :
    table.Serves i where
  partition := h.ids i table htable
  crossing link route peer hget hdelivery := by
    have hroute : routeAt tables ⟨i, link⟩ = some route := by
      simp only [routeAt, htable, Option.bind_some]
      exact Builder.get_eq_ok hget
    have hleads : route.delivery.leads ⟨i, link⟩ = some peer := by rw [hdelivery]; rfl
    have hbetween := (h.paired ⟨i, link⟩ peer route hroute hleads).1
    rw [hdelivery] at hbetween
    exact (Delivery.between_eq_across hbetween.symm).2

end Wiring

namespace PhaseAct

variable {π : Type} {tables : List RouteTable} {pending : List (String × LinkEnd)}
  {e f : LinkEnd} {i : PartitionId} {table : RouteTable}

def mailOn (f : LinkEnd) (mails : List (LinkEnd × π)) : List π :=
  mails.filterMap fun mail => if mail.1 = f then some mail.2 else none

theorem on_mailTo (j : PartitionId) (link : LinkId) (mails : List (LinkEnd × π)) :
    Event.on link (mailTo j mails) = mailOn ⟨j, link⟩ mails := by
  induction mails with
  | nil => rfl
  | cons mail mails ih =>
    obtain ⟨⟨k, other⟩, payload⟩ := mail
    unfold Event.on mailTo mailOn at ih ⊢
    by_cases hk : k = j
    · by_cases hlink : other = link
      · simp [hk, hlink, ih]
      · simp [hk, hlink, ih]
    · simp [hk, ih]

theorem mail?_sent (h : Wiring tables pending) (htable : tables[i]? = some table) (link : LinkId)
    (payload : π) (mail : LinkEnd × π) :
    mail? table (.sent link payload) = some mail ↔
      Wired tables ⟨i, link⟩ mail.1 ∧ mail.2 = payload := by
  obtain ⟨target, content⟩ := mail
  have hid := h.ids i table htable
  unfold mail? Wired routeAt
  rw [htable, Option.bind_some, hid]
  simp only [Option.bind_eq_bind, Option.bind_eq_some_iff, Option.pure_def, Option.some.injEq,
    Prod.mk.injEq]
  constructor
  · rintro ⟨route, hroute, target, hleads, rfl, rfl⟩
    exact ⟨⟨route, hroute, hleads⟩, rfl⟩
  · rintro ⟨⟨route, hroute, hleads⟩, rfl⟩
    exact ⟨route, hroute, target, hleads, rfl, rfl⟩

/-- What comes to a link end was sent on the one that it is wired to. -/
theorem mailOn_mails (h : Wiring tables pending) (htable : tables[i]? = some table)
    (hwired : Wired tables e f) (acts : List (PhaseAct π)) :
    mailOn f (mails table acts) = if i = e.partition then sentOn e.link acts else [] := by
  induction acts with
  | nil => simp [mailOn, mails, sentOn]
  | cons act acts ih =>
    have hsplit : mailOn f (mails table (act :: acts)) =
        mailOn f (mails table [act]) ++ mailOn f (mails table acts) := by
      rw [show act :: acts = [act] ++ acts from rfl, mails_append]
      exact List.filterMap_append
    rw [hsplit, ih, show act :: acts = [act] ++ acts from rfl, sentOn_append]
    have hact : mailOn f (mails table [act]) =
        if i = e.partition then sentOn e.link [act] else [] := by
      cases act with
      | read link answer => simp [mailOn, mails, mail?, sentOn]
      | sent link payload =>
        have hmail := mail?_sent h htable link payload
        by_cases hsource : Wired tables ⟨i, link⟩ f
        · cases h.wired_unique hwired hsource
          have hsome := (hmail (f, payload)).mpr ⟨hsource, rfl⟩
          simp [mailOn, mails, sentOn, hsome]
        · have hnone : mailOn f (mails table [.sent link payload]) = [] := by
            unfold mailOn mails
            cases hfound : mail? table (.sent link payload) with
            | none => simp [hfound]
            | some mail =>
              have hne : mail.1 ≠ f := by
                rintro rfl
                exact hsource ((hmail mail).mp hfound).1
              simp [hfound, hne]
          rw [hnone]
          split
          · rename_i hi
            have hlink : link ≠ e.link := by
              rintro rfl
              exact hsource (by rw [hi]; exact hwired)
            simp [sentOn, hlink]
          · rfl
    rw [hact]
    split <;> simp

end PhaseAct

theorem Event.on_flatMap {α π : Type} (link : LinkId) (items : List α) (f : α → List (Event π)) :
    Event.on link (items.flatMap f) = items.flatMap fun a => Event.on link (f a) := by
  induction items with
  | nil => rfl
  | cons a items ih => rw [List.flatMap_cons, List.flatMap_cons, Event.on_append, ih]

/-! ## One place of a list -/

section

variable {α β : Type} {f : α → List β} {items : List α} {i : Nat} {a : α}

theorem flatMap_congr_of_getElem? {γ : Type} {g : γ → List β} {others : List γ}
    (hlength : items.length = others.length)
    (h : ∀ (j : Nat) (x : α) (y : γ), items[j]? = some x → others[j]? = some y → f x = g y) :
    items.flatMap f = others.flatMap g := by
  have hmap : items.map f = others.map g := by
    apply List.ext_getElem?
    intro j
    rw [List.getElem?_map, List.getElem?_map]
    cases hx : items[j]? with
    | none =>
      rw [List.getElem?_eq_none (hlength ▸ List.getElem?_eq_none_iff.mp hx)]
      rfl
    | some x =>
      have hlt := (List.getElem?_eq_some_iff.mp hx).1
      obtain ⟨y, hy⟩ : ∃ y, others[j]? = some y :=
        ⟨_, List.getElem?_eq_getElem (hlength ▸ hlt)⟩
      rw [hy, Option.map_some, Option.map_some, h j x y hx hy]
  rw [List.flatMap_def, List.flatMap_def, hmap]

theorem flatMap_eq_nil_of_getElem?
    (h : ∀ (j : Nat) (x : α), items[j]? = some x → f x = []) : items.flatMap f = [] := by
  rw [List.flatMap_eq_nil_iff]
  intro x hx
  obtain ⟨j, hj⟩ := List.mem_iff_getElem?.mp hx
  exact h j x hj

theorem flatMap_eq_of_getElem? (ha : items[i]? = some a)
    (h : ∀ (j : Nat) (x : α), j ≠ i → items[j]? = some x → f x = []) :
    items.flatMap f = f a := by
  induction items generalizing i with
  | nil => simp at ha
  | cons x items ih =>
    rw [List.flatMap_cons]
    cases i with
    | zero =>
      cases ha
      rw [flatMap_eq_nil_of_getElem? fun j y hy => h (j + 1) y (by omega) hy, List.append_nil]
    | succ i =>
      rw [h 0 x (by omega) rfl, List.nil_append]
      exact ih ha fun j y hj hy => h (j + 1) y (by omega) hy

end

/-! ## Rounds -/

variable {M : Model}

/-- All partitions at the beginning of a phase. -/
abbrev Row (M : Model) := List (Partition M)

namespace Row

variable (row : Row M) (stage : Stage) (phase : Nat)

def sentOn (e : LinkEnd) : List M.Payload :=
  row[e.partition]?.elim [] fun p => PhaseAct.sentOn e.link (p.acts stage phase)

def mailTo (j : PartitionId) : List (Event M.Payload) :=
  row.flatMap fun p => PhaseAct.mailTo j (p.mails stage phase)

def received (j : PartitionId) : List (Event M.Payload) :=
  row.flatMap fun p => if j = p.id then [] else PhaseAct.mailTo j (p.mails stage phase)

def Busy : Prop := ∃ p ∈ row, p.mails stage phase ≠ []

/-- All partitions have gone through a phase. -/
structure Posts (parties : List (Party M)) : Prop where
  length : parties.length = row.length
  each : ∀ (i : Nat) (p : Partition M), row[i]? = some p → ∃ work q own,
    parties[i]? = some ⟨work, q, .untimed own⟩ ∧ Partition.Posts stage phase p q own

/-- A phase can begin in all partitions. -/
structure Clear (tables : List RouteTable) : Prop where
  each : ∀ (i : Nat) (p : Partition M), row[i]? = some p → p.Clear i
  routes : ∀ (i : Nat) (p : Partition M), row[i]? = some p → tables[i]? = some p.routes

end Row

/-- A partition that has handed over and gets its untimed events. -/
def Partition.arrive (p : Partition M) (own : Nat) (received : List (Event M.Payload)) :
    Partition M :=
  ({ p with
    member :=
      { p.member with
        outbound := p.member.outbound.map fun _ => {}
        untimedRounds := p.member.untimedRounds + 1 } } : Partition M).receiveUntimed own received

/-- How many events a partition sent to itself in the phase before. -/
def Round.Kind.own : Round.Kind → Nat
  | .untimed own => own
  | .epoch => 0

def Row.next (row : Row M) (stage : Stage) (phase : Nat) (parties : List (Party M)) : Row M :=
  parties.mapIdx fun j q => q.partition.arrive q.kind.own (row.received stage phase j)

namespace Row

variable {row : Row M} {stage : Stage} {phase : Nat} {parties : List (Party M)}
  {tables : List RouteTable} {pending : List (String × LinkEnd)}

theorem length_next : (row.next stage phase parties).length = parties.length :=
  List.length_mapIdx ..

/-- What comes in are the events that were sent in other partitions. -/
theorem Posts.incoming_eq (h : row.Posts stage phase parties) (j : PartitionId) :
    (Party.incoming parties j).filterMap (fun a => a.payload.event?) =
      row.received stage phase j := by
  have hincoming : Party.incoming parties j = row.flatMap fun p =>
      if j = p.id then [] else
        (PhaseAct.mailTo j (p.mails stage phase)).map Activity.ofMail := by
    refine flatMap_congr_of_getElem? h.length fun i r p hr hp => ?_
    obtain ⟨work, q, own, hq, hposts⟩ := h.each i p hp
    rw [hr] at hq
    cases hq
    show (q.box j).map (fun a => a.notBefore Time.zero) = _
    rw [hposts.boxes j]
    have hsame : ∀ a : Scheduled M.Payload, a.notBefore Time.zero = a :=
      fun a => Activity.notBefore_eq_self (Nat.zero_le _)
    simp [hsame]
  rw [hincoming]
  unfold received
  rw [List.filterMap_flatMap]
  congr 1
  funext p
  split
  · rfl
  · rw [List.filterMap_map]
    exact List.filterMap_some ..

/-- A partition gets what it sent to itself and what the others sent to it. -/
theorem length_mailTo (stage : Stage) (phase : Nat)
    (hids : ∀ (i : Nat) (p : Partition M), row[i]? = some p → p.id = i)
    {j : Nat} {p : Partition M} (hp : row[j]? = some p) :
    (row.mailTo stage phase j).length =
      (PhaseAct.mailTo p.id (p.mails stage phase)).length +
        (row.received stage phase j).length := by
  have hown : (row.flatMap fun r =>
      if j = r.id then PhaseAct.mailTo j (r.mails stage phase) else []) =
        PhaseAct.mailTo p.id (p.mails stage phase) := by
    rw [flatMap_eq_of_getElem? hp, if_pos (hids j p hp).symm, hids j p hp]
    intro i r hij hr
    exact if_neg fun heq => hij (by rw [heq, hids i r hr])
  rw [← hown]
  unfold mailTo received
  clear hp hown hids
  induction row with
  | nil => rfl
  | cons r row ih =>
    simp only [List.flatMap_cons, List.length_append, ih]
    split <;> simp <;> omega

theorem Clear.on_received (h : row.Clear tables) (stage : Stage) (phase : Nat)
    (hwiring : Wiring tables pending)
    {e : LinkEnd} {j : Nat} {link : LinkId} (hwired : Wired tables e ⟨j, link⟩) {p : Partition M}
    (hp : row[j]? = some p) :
    Event.on link (PhaseAct.mailTo p.id (p.mails stage phase)) ++
        Event.on link (row.received stage phase j) =
      row.sentOn stage phase e := by
  have hid := (h.each j p hp).id
  have hmail : ∀ (i : Nat) (r : Partition M), row[i]? = some r →
      Event.on link (PhaseAct.mailTo j (r.mails stage phase)) =
        if i = e.partition then PhaseAct.sentOn e.link (r.acts stage phase) else [] := by
    intro i r hr
    rw [PhaseAct.on_mailTo]
    exact PhaseAct.mailOn_mails hwiring (h.routes i r hr) hwired _
  have hothers : Event.on link (row.received stage phase j) = row.flatMap fun r =>
      if j = r.id then [] else Event.on link (PhaseAct.mailTo j (r.mails stage phase)) := by
    unfold received
    rw [Event.on_flatMap]
    congr 1
    funext r
    split <;> rfl
  rw [hothers, hid, hmail j p hp]
  unfold sentOn
  by_cases hj : j = e.partition
  · subst hj
    rw [if_pos rfl, hp, flatMap_eq_nil_of_getElem?, List.append_nil]
    · rfl
    · intro i r hr
      rw [(h.each i r hr).id]
      split
      · rfl
      · rename_i hne
        rw [hmail i r hr, if_neg (Ne.symm hne)]
  · rw [if_neg hj, List.nil_append]
    cases he : row[e.partition]? with
    | none =>
      show _ = []
      refine flatMap_eq_nil_of_getElem? fun i r hr => ?_
      split
      · rfl
      · rw [hmail i r hr, if_neg]
        rintro rfl
        rw [hr] at he
        cases he
    | some q =>
      rw [flatMap_eq_of_getElem? he]
      · rw [(h.each _ q he).id, if_neg hj, hmail _ q he, if_pos rfl]
        rfl
      · intro i r hi hr
        split
        · rfl
        · rw [hmail i r hr, if_neg hi]

end Row

/-- A phase and the round behind it have led partition `i` from `p` to `r`; `row` are all partitions
at the beginning of the phase. -/
structure Partition.Passed (stage : Stage) (phase : Nat) (tables : List RouteTable) (row : Row M)
    (i : PartitionId) (p r : Partition M) : Prop where
  clear : r.Clear i
  routes : r.routes = p.routes
  called : (p.calls stage phase).map (·.participant) = p.participants
  nexts : (p.calls stage phase).map (·.next?) = r.participants.map some
  queues : ∀ (e : LinkEnd) (link : LinkId), Wired tables e ⟨i, link⟩ →
    p.inbox.on link ++ row.sentOn stage phase e =
      PhaseAct.readOn link (p.acts stage phase) ++ r.inbox.on link
  answers : ∀ (before after : List (PhaseAct M.Payload)) (link : LinkId)
    (answer : Option M.Payload), p.acts stage phase = before ++ .read link answer :: after →
      answer = (p.inbox.on link)[(PhaseAct.readOn link before).length]?
  unread : p.inbox.readable.length + (row.mailTo stage phase i).length =
    (PhaseAct.reads (p.acts stage phase)).length + r.inbox.readable.length
  tally : r.tally =
    { p.tally with
      untimedReceived := p.tally.untimedReceived + (row.mailTo stage phase i).length }
  exchanged : r.member.exchanged = p.member.exchanged

namespace Row

variable {row : Row M} {stage : Stage} {phase : Nat} {parties : List (Party M)}
  {tables : List RouteTable} {pending : List (String × LinkEnd)}

theorem deliver_readable {π : Type} (events : List (Event π)) (inbox : Inbox π) :
    events.foldl Inbox.deliver inbox =
      { inbox with readable := inbox.readable ++ events } := by
  induction events generalizing inbox with
  | nil => simp
  | cons event events ih => simp [ih, Inbox.deliver]

theorem Clear.passed (h : row.Clear tables) (hwiring : Wiring tables pending) {j : Nat}
    {p q : Partition M} {own : Nat} (hp : row[j]? = some p)
    (hposts : Partition.Posts stage phase p q own) :
    p.Passed stage phase tables row j (q.arrive own (row.received stage phase j)) := by
  have hclear := h.each j p hp
  obtain ⟨outbound, inbox, state, participants, _, hq⟩ := id hposts.phased
  have hinbox : (q.arrive own (row.received stage phase j)).inbox =
      { q.inbox with readable := q.inbox.readable ++ row.received stage phase j } :=
    deliver_readable ..
  have hlength := length_mailTo stage phase (fun i r hr => (h.each i r hr).id) hp
  rw [← hposts.kept] at hlength
  constructor
  case clear =>
    constructor
    case id =>
      rw [hq]
      exact hclear.id
    case serves =>
      rw [hq]
      exact hclear.serves
    case held => rw [hinbox, hposts.held]
    case boxes => exact box_map_empty q.member.outbound
  case routes => rw [hq]; rfl
  case called => exact hposts.called
  case nexts => exact hposts.nexts
  case queues =>
    intro e link hwired
    have hon := h.on_received stage phase hwiring hwired hp
    rw [hinbox]
    show _ = _ ++ Event.on link (q.inbox.readable ++ _)
    rw [← hon, Event.on_append, ← List.append_assoc, ← List.append_assoc, hposts.queues link]
    rfl
  case answers => exact hposts.answers
  case unread =>
    rw [hinbox, hlength]
    have hunread := hposts.unread
    simp only [List.length_append]
    omega
  case tally =>
    rw [hlength, hq]
    simp only [Partition.arrive, Partition.receiveUntimed, Nat.add_assoc]
  case exchanged =>
    rw [hq]
    rfl

/-- Whoever is there after a round was there before its phase. -/
theorem Clear.passed_of_next (h : row.Clear tables) (hwiring : Wiring tables pending)
    (hposts : row.Posts stage phase parties) {j : Nat} {r : Partition M}
    (hr : (row.next stage phase parties)[j]? = some r) :
    ∃ p, row[j]? = some p ∧ p.Passed stage phase tables row j r := by
  unfold next at hr
  rw [List.getElem?_mapIdx] at hr
  obtain ⟨q, hq, rfl⟩ := Option.map_eq_some_iff.mp hr
  obtain ⟨p, hp⟩ : ∃ p, row[j]? = some p :=
    ⟨_, List.getElem?_eq_getElem (hposts.length ▸ (List.getElem?_eq_some_iff.mp hq).1)⟩
  obtain ⟨work, q', own, hq', hphase⟩ := hposts.each j p hp
  rw [hq] at hq'
  cases hq'
  exact ⟨p, hp, h.passed hwiring hp hphase⟩

/-! ## Going on -/

/-- A partition is busy in a round if it has sent something in the phase before. -/
theorem minimum_eq {p q : Partition M} {work : Work} {own : Nat}
    (hposts : Partition.Posts stage phase p q own) (incoming : List (Scheduled M.Payload)) :
    Party.minimum ⟨work, q, .untimed own⟩ incoming =
      if p.mails stage phase ≠ [] then Time.zero else Time.never := by
  have hbusy : (0 < total Outbox.size q.member.outbound ∨ 0 < own) ↔ p.mails stage phase ≠ [] := by
    constructor
    · rintro (hsent | hown) hmails
      · obtain ⟨box, hbox, hsize⟩ := total_pos_iff.mp hsent
        obtain ⟨j, hj⟩ := List.mem_iff_getElem?.mp hbox
        have hnone : q.box j = [] := by
          rw [hposts.boxes j, hmails]
          split <;> rfl
        rw [Partition.box, hj] at hnone
        simp [Outbox.size, show box.activities = [] from hnone] at hsize
      · rw [hposts.kept, hmails] at hown
        cases hown
    · intro hmails
      obtain ⟨mail, rest, hmail⟩ := List.exists_cons_of_ne_nil hmails
      have hto : PhaseAct.mailTo mail.1.partition (p.mails stage phase) ≠ [] := by
        rw [hmail]
        simp [PhaseAct.mailTo]
      by_cases hid : mail.1.partition = p.id
      · refine Or.inr ?_
        rw [hposts.kept, ← hid]
        exact List.length_pos_iff.mpr hto
      · refine Or.inl (total_pos_iff.mpr ?_)
        have hbox : q.box mail.1.partition ≠ [] := by
          rw [hposts.boxes, if_neg hid]
          simpa using hto
        unfold Partition.box at hbox
        cases hfound : q.member.outbound[mail.1.partition]? with
        | none => simp [hfound] at hbox
        | some box =>
          rw [hfound] at hbox
          exact ⟨box, List.mem_of_getElem? hfound, List.length_pos_iff.mpr hbox⟩
  show (if 0 < total Outbox.size q.member.outbound ∨ 0 < own then Time.zero else Time.never) = _
  simp only [hbusy]

/-- Another round is needed if anyone has sent anything. -/
theorem Posts.least_ne_never_iff (h : row.Posts stage phase parties) :
    Party.least parties ≠ Time.never ↔ row.Busy stage phase := by
  constructor
  · intro hleast
    refine Classical.byContradiction fun hquiet => ?_
    refine hleast (Time.le_antisymm (Time.le_never _) (Party.le_least fun j q hq => ?_))
    obtain ⟨p, hp⟩ : ∃ p, row[j]? = some p :=
      ⟨_, List.getElem?_eq_getElem (h.length ▸ (List.getElem?_eq_some_iff.mp hq).1)⟩
    obtain ⟨work, q', own, hq', hposts⟩ := h.each j p hp
    rw [hq] at hq'
    cases hq'
    have hmails : ¬ p.mails stage phase ≠ [] := fun hmails =>
      hquiet ⟨p, List.mem_of_getElem? hp, hmails⟩
    rw [minimum_eq hposts, if_neg hmails]
    exact Time.le_refl _
  · rintro ⟨p, hp, hmails⟩ hleast
    obtain ⟨i, hi⟩ := List.mem_iff_getElem?.mp hp
    obtain ⟨work, q, own, hq, hposts⟩ := h.each i p hi
    have hle := Party.least_le_minimum hq
    rw [hleast, minimum_eq hposts, if_pos hmails] at hle
    exact absurd hle (by decide)

end Row

namespace Party

variable {q : Partition M} {own : Nat} {incoming : List (Scheduled M.Payload)} {least : Time}

/-- If anyone has sent anything, the next phase follows. -/
theorem conclude_busy {work : Work} {stage : Stage} {phase : Nat}
    (hwork : work.phase? = some (stage, phase)) (hleast : least ≠ Time.never) :
    ∃ work' : Work, work'.phase? = some (stage, phase + 1) ∧
      (conclude ⟨work, q, .untimed own⟩ incoming least).stance =
        .running work' (q.arrive own (incoming.filterMap fun a => a.payload.event?)) := by
  cases work with
  | init k =>
    cases hwork
    refine ⟨.init (phase + 1), rfl, ?_⟩
    simp only [conclude, Thread.afterRound, hleast, ne_eq, not_false_eq_true, decide_true]
    rfl
  | complete k stop =>
    cases hwork
    refine ⟨.complete (phase + 1) stop, rfl, ?_⟩
    simp only [conclude, Thread.afterRound, hleast, ne_eq, not_false_eq_true, decide_true]
    rfl
  | timed => cases hwork

/-- If nobody has, the stage is over, and what has not been read is dropped. -/
theorem conclude_init {phase : Nat} (hleast : least = Time.never) :
    (conclude ⟨.init phase, q, .untimed own⟩ incoming least).stance =
      .running .timed (q.arrive own (incoming.filterMap fun a => a.payload.event?)).dropUnread := by
  subst hleast
  rfl

theorem conclude_complete {phase : Nat} {stop : StopReason} (hleast : least = Time.never) :
    (conclude ⟨.complete phase stop, q, .untimed own⟩ incoming least).stance =
      .ended stop (q.arrive own (incoming.filterMap fun a => a.payload.event?)).dropUnread := by
  subst hleast
  rfl

end Party

end Lookahead

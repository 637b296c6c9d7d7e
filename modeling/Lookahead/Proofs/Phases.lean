import Lookahead.Proofs.Build
import Lookahead.Proofs.Work

/-!
What untimed handlers do in a phase.

A handler sends and reads, and gets its answers from what was readable when the phase began: what
is sent in a phase can be read by nobody in that phase (`Partition.did_runPhase`).
-/

namespace Lookahead

/-! ## Acts -/

/-- What an untimed handler does that others can notice: a send that was taken, or an attempt to
read with its answer. -/
inductive PhaseAct (π : Type) where
  | sent (link : LinkId) (payload : π)
  | read (link : LinkId) (answer : Option π)

namespace PhaseAct

variable {π : Type} {link : LinkId}

def sentOn (link : LinkId) (acts : List (PhaseAct π)) : List π :=
  acts.filterMap fun act =>
    match act with
    | .sent at' payload => if at' = link then some payload else none
    | .read _ _ => none

def readOn (link : LinkId) (acts : List (PhaseAct π)) : List π :=
  acts.filterMap fun act =>
    match act with
    | .read at' answer => if at' = link then answer else none
    | .sent _ _ => none

def reads (acts : List (PhaseAct π)) : List π :=
  acts.filterMap fun act =>
    match act with
    | .read _ answer => answer
    | .sent _ _ => none

def IsSent : PhaseAct π → Prop
  | .sent _ _ => True
  | .read _ _ => False

def mail? (routes : RouteTable) : PhaseAct π → Option (LinkEnd × π)
  | .sent link payload => do
    let route ← routes.routes[link]?
    let target ← route.delivery.leads ⟨routes.partition, link⟩
    return (target, payload)
  | .read _ _ => none

def mails (routes : RouteTable) (acts : List (PhaseAct π)) : List (LinkEnd × π) :=
  acts.filterMap (mail? routes)

def mailTo (j : PartitionId) (mails : List (LinkEnd × π)) : List (Event π) :=
  mails.filterMap fun mail =>
    if mail.1.partition = j then some ⟨mail.1.link, mail.2⟩ else none

@[simp] theorem sentOn_append (link : LinkId) (acts more : List (PhaseAct π)) :
    sentOn link (acts ++ more) = sentOn link acts ++ sentOn link more := List.filterMap_append

@[simp] theorem readOn_append (link : LinkId) (acts more : List (PhaseAct π)) :
    readOn link (acts ++ more) = readOn link acts ++ readOn link more := List.filterMap_append

@[simp] theorem reads_append (acts more : List (PhaseAct π)) :
    reads (acts ++ more) = reads acts ++ reads more := List.filterMap_append

@[simp] theorem mails_append (routes : RouteTable) (acts more : List (PhaseAct π)) :
    mails routes (acts ++ more) = mails routes acts ++ mails routes more := List.filterMap_append

@[simp] theorem mailTo_append (j : PartitionId) (mails more : List (LinkEnd × π)) :
    mailTo j (mails ++ more) = mailTo j mails ++ mailTo j more := List.filterMap_append

end PhaseAct

/-- An untimed event on its way to another partition. -/
def Activity.ofMail {π : Type} (event : Event π) : Scheduled π where
  time := Time.zero
  priority := Priority.event
  payload := .deliver event

def Event.on {π : Type} (link : LinkId) (events : List (Event π)) : List π :=
  (events.filter fun event => event.link == link).map (·.payload)

@[simp] theorem Event.on_append {π : Type} (link : LinkId) (events more : List (Event π)) :
    on link (events ++ more) = on link events ++ on link more := by
  simp [on]

/-! ## Inboxes -/

namespace Inbox

variable {π : Type} {inbox inbox' : Inbox π} {link : LinkId} {event : Event π}

def on (inbox : Inbox π) (link : LinkId) : List π := Event.on link inbox.readable

@[simp] theorem on_empty (link : LinkId) : ({} : Inbox π).on link = [] := rfl

theorem on_of_take?_none (h : inbox.take? link = none) : inbox.on link = [] := by
  unfold take? at h
  split at h
  · rename_i hfind
    have hnone : inbox.readable.filter (fun event => event.link == link) = [] :=
      List.filter_eq_nil_iff.mpr (List.find?_eq_none.mp hfind)
    rw [on, Event.on, hnone, List.map_nil]
  · cases h

theorem take?_eq_some (h : inbox.take? link = some (event, inbox')) :
    event.link = link ∧ inbox'.held = inbox.held ∧ ∃ front back,
      inbox.readable = front ++ event :: back ∧ inbox'.readable = front ++ back ∧
        ∀ a ∈ front, a.link ≠ link := by
  unfold take? at h
  split at h
  · cases h
  · rename_i found hfind
    cases h
    obtain ⟨hlink, front, back, hreadable, hfront⟩ := List.find?_eq_some_iff_append.mp hfind
    have hothers : ∀ a ∈ front, ¬ (a.link == link) = true := by simpa using hfront
    refine ⟨eq_of_beq hlink, rfl, front, back, hreadable, ?_, by simpa using hfront⟩
    dsimp only
    rw [hreadable, List.eraseP_append_right _ hothers, List.eraseP_cons_of_pos]
    exact hlink

theorem on_of_take? (h : inbox.take? link = some (event, inbox')) :
    inbox.on link = event.payload :: inbox'.on link ∧
      ∀ other, other ≠ link → inbox.on other = inbox'.on other := by
  obtain ⟨rfl, _, front, back, hreadable, hreadable', hfront⟩ := take?_eq_some h
  have hnone : front.filter (fun a => a.link == event.link) = [] :=
    List.filter_eq_nil_iff.mpr (by simpa using hfront)
  unfold on Event.on
  rw [hreadable, hreadable']
  constructor
  · simp [hnone]
  · intro other hother
    simp [Ne.symm hother]

theorem length_of_take? (h : inbox.take? link = some (event, inbox')) :
    inbox.readable.length = inbox'.readable.length + 1 := by
  obtain ⟨_, _, front, back, hreadable, hreadable', _⟩ := take?_eq_some h
  rw [hreadable, hreadable', List.length_append, List.length_append, List.length_cons]
  omega

end Inbox

/-- What has been handed over waits no longer. -/
theorem box_map_empty {π : Type} (outbound : List (Outbox π)) (j : PartitionId) :
    ((outbound.map fun _ => ({} : Outbox π))[j]?.getD {}).activities = [] := by
  rw [List.getElem?_map]
  cases outbound[j]? <;> rfl

/-! ## What acts come to -/

/-- The table of partition `i`, whose links lead to other partitions if they leave it. -/
structure RouteTable.Serves (table : RouteTable) (i : PartitionId) : Prop where
  partition : table.partition = i
  crossing : ∀ (link : LinkId) (route : Route) (peer : LinkEnd), table.get link = .ok route →
    route.delivery = .across peer → peer.partition ≠ i

namespace PhaseContext

variable {σ π α : Type} {ctx mid ctx' : PhaseContext σ π} {link : LinkId} {payload : π}
  {acts more : List (PhaseAct π)}

def box (ctx : PhaseContext σ π) (j : PartitionId) : List (Scheduled π) :=
  (ctx.outbound[j]?.getD {}).activities

/-- What acts make of what the handlers can reach: events within the partition are held back, the
others wait in the outboxes, and what was read was taken off the front of the readable ones. -/
structure Did (ctx : PhaseContext σ π) (acts : List (PhaseAct π)) (ctx' : PhaseContext σ π) :
    Prop where
  partition : ctx'.partition = ctx.partition
  routes : ctx'.routes = ctx.routes
  held : ctx'.inbox.held =
    ctx.inbox.held ++ PhaseAct.mailTo ctx.partition (PhaseAct.mails ctx.routes acts)
  boxes : ∀ j, ctx'.box j = ctx.box j ++ if j = ctx.partition then [] else
    (PhaseAct.mailTo j (PhaseAct.mails ctx.routes acts)).map Activity.ofMail
  queues : ∀ link, ctx.inbox.on link = PhaseAct.readOn link acts ++ ctx'.inbox.on link
  answers : ∀ (before after : List (PhaseAct π)) (link : LinkId) (answer : Option π),
    acts = before ++ .read link answer :: after →
      answer = (ctx.inbox.on link)[(PhaseAct.readOn link before).length]?
  unread : ctx.inbox.readable.length = (PhaseAct.reads acts).length + ctx'.inbox.readable.length
  posted : ∀ act ∈ acts, act.IsSent → (PhaseAct.mail? ctx.routes act).isSome = true

namespace Did

theorem refl (ctx : PhaseContext σ π) : ctx.Did [] ctx where
  partition := rfl
  routes := rfl
  held := by simp [PhaseAct.mails, PhaseAct.mailTo]
  boxes j := by simp [PhaseAct.mails, PhaseAct.mailTo]
  queues link := rfl
  answers before after link answer h := by simp at h
  unread := by simp [PhaseAct.reads]
  posted act hact := by cases hact

theorem trans (h : ctx.Did acts mid) (h' : mid.Did more ctx') : ctx.Did (acts ++ more) ctx' where
  partition := h'.partition.trans h.partition
  routes := h'.routes.trans h.routes
  held := by
    rw [h'.held, h.held, h.partition, h.routes, PhaseAct.mails_append, PhaseAct.mailTo_append,
      List.append_assoc]
  boxes j := by
    rw [h'.boxes j, h.boxes j, h.partition, h.routes, PhaseAct.mails_append,
      PhaseAct.mailTo_append, List.append_assoc]
    split <;> simp
  queues link := by
    rw [h.queues link, h'.queues link, PhaseAct.readOn_append, List.append_assoc]
  answers before after link answer hacts := by
    rcases List.append_eq_append_iff.mp hacts with ⟨front, rfl, hmore⟩ | ⟨back, hback, hrest⟩
    · -- The attempt is among the later acts, behind everything that was read by the first ones.
      rw [h'.answers front after link answer hmore, h.queues link, PhaseAct.readOn_append,
        List.length_append, List.getElem?_append_right (by omega)]
      congr 1
      omega
    · cases back with
      | nil =>
        rw [List.nil_append] at hrest
        rw [List.append_nil] at hback
        subst hback
        rw [h'.answers [] after link answer hrest.symm, h.queues link,
          List.getElem?_append_right (Nat.le_refl _), Nat.sub_self]
        rfl
      | cons act back =>
        obtain ⟨rfl, hafter⟩ := List.cons.inj hrest
        exact h.answers before back link answer hback
  unread := by
    rw [h.unread, h'.unread, PhaseAct.reads_append, List.length_append]
    omega
  posted act hact hsent := by
    rcases List.mem_append.mp hact with hact | hact
    · exact h.posted act hact hsent
    · rw [← h.routes]
      exact h'.posted act hact hsent

theorem remember (state : σ) : ctx.Did [] { ctx with state } :=
  have h := refl ctx
  ⟨h.partition, h.routes, h.held, h.boxes, h.queues, h.answers, h.unread, h.posted⟩

theorem receive {event : Event π} {inbox : Inbox π}
    (h : ctx.inbox.take? link = some (event, inbox)) :
    ctx.Did [.read link (some event.payload)] { ctx with inbox } := by
  obtain ⟨hon, hothers⟩ := Inbox.on_of_take? h
  have hheld := (Inbox.take?_eq_some h).2.1
  have hlength := Inbox.length_of_take? h
  constructor
  case partition => rfl
  case routes => rfl
  case held => simp [PhaseAct.mails, PhaseAct.mail?, PhaseAct.mailTo, hheld]
  case boxes => simp [PhaseAct.mails, PhaseAct.mail?, PhaseAct.mailTo, box]
  case queues =>
    intro other
    by_cases hother : link = other
    · subst hother
      simp [PhaseAct.readOn, hon]
    · simp [PhaseAct.readOn, hother, hothers other fun h => hother h.symm]
  case answers =>
    intro before after other answer hacts
    cases before with
    | nil =>
      cases hacts
      simp [PhaseAct.readOn, hon]
    | cons act before => simp at hacts
  case unread =>
    simp only [PhaseAct.reads, List.filterMap_cons, List.filterMap_nil, List.length_singleton]
    omega
  case posted => simp [PhaseAct.IsSent]

theorem receive_none (h : ctx.inbox.take? link = none) : ctx.Did [.read link none] ctx := by
  constructor
  case partition => rfl
  case routes => rfl
  case held => simp [PhaseAct.mails, PhaseAct.mail?, PhaseAct.mailTo]
  case boxes => simp [PhaseAct.mails, PhaseAct.mail?, PhaseAct.mailTo]
  case queues => simp [PhaseAct.readOn]
  case answers =>
    intro before after other answer hacts
    cases before with
    | nil =>
      cases hacts
      simp [Inbox.on_of_take?_none h]
    | cons act before => simp at hacts
  case unread => simp [PhaseAct.reads]
  case posted => simp [PhaseAct.IsSent]

/-- A send within the partition is held back. -/
theorem hold {target : LinkId}
    (hmail : PhaseAct.mail? ctx.routes (.sent link payload) =
      some (⟨ctx.partition, target⟩, payload)) :
    ctx.Did [.sent link payload] { ctx with inbox := ctx.inbox.hold ⟨target, payload⟩ } := by
  have hmails : PhaseAct.mails ctx.routes [.sent link payload] =
      [(⟨ctx.partition, target⟩, payload)] := by simp [PhaseAct.mails, hmail]
  constructor
  case partition => rfl
  case routes => rfl
  case held => simp [hmails, PhaseAct.mailTo, Inbox.hold]
  case boxes =>
    intro j
    rw [hmails]
    by_cases hj : j = ctx.partition
    · simp [hj, box]
    · simp [hj, box, PhaseAct.mailTo, Ne.symm hj]
  case queues => simp [PhaseAct.readOn, Inbox.on, Inbox.hold]
  case answers =>
    intro before after other answer hacts
    cases before <;> simp at hacts
  case unread => simp [PhaseAct.reads, Inbox.hold]
  case posted => simp [hmail]

/-- A send to another partition waits in its outbox. -/
theorem post {peer : LinkEnd} {found : Outbox π} (hpeer : peer.partition ≠ ctx.partition)
    (hbox : ctx.outbound[peer.partition]? = some found)
    (hmail : PhaseAct.mail? ctx.routes (.sent link payload) = some (peer, payload)) :
    ctx.Did [.sent link payload]
      { ctx with
        outbound := ctx.outbound.set peer.partition
          (found.append (Activity.ofMail ⟨peer.link, payload⟩)) } := by
  have hmails : PhaseAct.mails ctx.routes [.sent link payload] = [(peer, payload)] := by
    simp [PhaseAct.mails, hmail]
  constructor
  case partition => rfl
  case routes => rfl
  case held => simp [hmails, PhaseAct.mailTo, hpeer]
  case boxes =>
    intro j
    rw [hmails]
    by_cases hj : j = peer.partition
    · subst hj
      rw [if_neg hpeer]
      simp only [box, List.getElem?_set_self (List.getElem?_eq_some_iff.mp hbox).1, hbox]
      simp [PhaseAct.mailTo]
    · simp [box, PhaseAct.mailTo, Ne.symm hj, List.getElem?_set_ne (Ne.symm hj)]
  case queues => simp [PhaseAct.readOn]
  case answers =>
    intro before after other answer hacts
    cases before <;> simp at hacts
  case unread => simp [PhaseAct.reads]
  case posted => simp [hmail]

/-- A send that was taken is held back, or waits in an outbox. -/
theorem send (hserves : ctx.routes.Serves ctx.partition)
    (h : ctx.send link payload = .ok ctx') : ctx.Did [.sent link payload] ctx' := by
  obtain ⟨route, hget, h⟩ := bind_eq_ok_iff.mp h
  have hroute := Builder.get_eq_ok hget
  cases hdelivery : route.delivery with
  | unwired => simp [hdelivery] at h
  | within target =>
    rw [hdelivery] at h
    cases h
    refine hold ?_
    simp [PhaseAct.mail?, hroute, hdelivery, Delivery.leads, hserves.partition]
  | across peer =>
    have hpeer := hserves.crossing link route peer hget hdelivery
    rw [hdelivery] at h
    dsimp only at h
    split at h
    · cases h
    · rename_i found hbox
      cases h
      refine post hpeer hbox ?_
      simp [PhaseAct.mail?, hroute, hdelivery, Delivery.leads]

end Did

end PhaseContext

/-! ## Programs -/

def PhaseProgram.acts {σ π α : Type} :
    PhaseProgram σ π α → PhaseContext σ π → List (PhaseAct π)
  | .done _, _ => []
  | .panic, _ => []
  | .recall next, ctx => (next ctx.state).acts ctx
  | .remember state next, ctx => next.acts { ctx with state }
  | .send link payload next, ctx =>
    match ctx.send link payload with
    | .ok ctx => .sent link payload :: (next (.ok ())).acts ctx
    | .error e => (next (.error e)).acts ctx
  | .receive link next, ctx =>
    match ctx.inbox.take? link with
    | some (event, inbox) =>
      .read link (some event.payload) :: (next (some event.payload)).acts { ctx with inbox }
    | none => .read link none :: (next none).acts ctx
  | .waiting link next, ctx => (next (ctx.inbox.waiting link)).acts ctx

/-- Running a program comes to what its acts say. -/
theorem PhaseProgram.did_run {σ π α : Type} (program : PhaseProgram σ π α)
    {ctx : PhaseContext σ π} (hserves : ctx.routes.Serves ctx.partition) :
    ctx.Did (program.acts ctx) (program.run ctx).1 := by
  induction program generalizing ctx with
  | done value => exact .refl ctx
  | panic => exact .refl ctx
  | «recall» next ih => exact ih ctx.state hserves
  | remember state next ih =>
    refine (PhaseContext.Did.remember state).trans ?_
    exact ih hserves
  | send link payload next ih =>
    unfold acts run
    cases hsend : ctx.send link payload with
    | error e => exact ih (.error e) hserves
    | ok ctx' =>
      have hdid := PhaseContext.Did.send hserves hsend
      refine hdid.trans (ih (.ok ()) ?_)
      rw [hdid.routes, hdid.partition]
      exact hserves
  | receive link next ih =>
    unfold acts run
    cases htake : ctx.inbox.take? link with
    | none => exact (PhaseContext.Did.receive_none htake).trans (ih none hserves)
    | some taken =>
      obtain ⟨event, inbox⟩ := taken
      refine (PhaseContext.Did.receive htake).trans ?_
      exact ih (some event.payload) hserves
  | waiting link next ih => exact ih (ctx.inbox.waiting link) hserves

/-! ## Calls -/

variable {M : Model}

/-- A call of an untimed handler: what it was told and what it did, and its next self, unless it
failed. -/
structure PhaseCall (M : Model) where
  view : PhaseView
  participant : M.Participant
  acts : List (PhaseAct M.Payload)
  next? : Option M.Participant

/-- The calls of a phase in order, up to the first that fails. -/
def phaseCalls (view : PhaseView) : List M.Participant → M.PhaseContext → List (PhaseCall M)
  | [], _ => []
  | participant :: rest, ctx =>
    let acts := (M.phase participant view).acts ctx
    match (M.phase participant view).run ctx with
    | (ctx, some (.ok next)) => ⟨view, participant, acts, some next⟩ :: phaseCalls view rest ctx
    | _ => [⟨view, participant, acts, none⟩]

/-- All handlers of a phase are told the same. -/
theorem view_of_mem_phaseCalls {view : PhaseView} {participants : List M.Participant}
    {ctx : M.PhaseContext} {call : PhaseCall M} (h : call ∈ phaseCalls view participants ctx) :
    call.view = view := by
  induction participants generalizing ctx with
  | nil => cases h
  | cons participant rest ih =>
    unfold phaseCalls at h
    dsimp only at h
    split at h
    · rcases List.mem_cons.mp h with rfl | h
      · rfl
      · exact ih h
    · rw [List.mem_singleton.mp h]

/-- Calling the handlers comes to what all their acts say. -/
theorem did_callParticipants (view : PhaseView) (participants : List M.Participant)
    {ctx : M.PhaseContext} (hserves : ctx.routes.Serves ctx.partition) :
    ctx.Did ((phaseCalls view participants ctx).flatMap (·.acts))
      (Partition.callParticipants view participants ctx).1 := by
  induction participants generalizing ctx with
  | nil => exact .refl ctx
  | cons participant rest ih =>
    have hdid := (M.phase participant view).did_run hserves
    unfold phaseCalls Partition.callParticipants
    dsimp only
    generalize (M.phase participant view).run ctx = ran at hdid ⊢
    obtain ⟨ctx', result⟩ := ran
    have hserves' : ctx'.routes.Serves ctx'.partition := by
      rw [hdid.routes, hdid.partition]
      exact hserves
    cases result with
    | none => simpa using hdid
    | some outcome =>
      cases outcome with
      | error e => simpa using hdid
      | ok next =>
        have hrest := ih hserves'
        rw [List.flatMap_cons]
        dsimp only at hdid ⊢
        refine hdid.trans ?_
        split <;> simp_all

/-- If no handler fails, each of them is called once and in order, and goes on as its next self. -/
theorem calls_of_callParticipants {view : PhaseView} {participants nexts : List M.Participant}
    {ctx ctx' : M.PhaseContext}
    (h : Partition.callParticipants view participants ctx = (ctx', some (.ok nexts))) :
    (phaseCalls view participants ctx).map (·.participant) = participants ∧
      (phaseCalls view participants ctx).map (·.next?) = nexts.map some := by
  induction participants generalizing ctx nexts with
  | nil =>
    cases h
    exact ⟨rfl, rfl⟩
  | cons participant rest ih =>
    unfold Partition.callParticipants at h
    unfold phaseCalls
    generalize (M.phase participant view).run ctx = ran at h ⊢
    obtain ⟨mid, result⟩ := ran
    cases result with
    | none => simp at h
    | some outcome =>
      cases outcome with
      | error e => simp at h
      | ok next =>
        dsimp only at h ⊢
        split at h
        · rename_i hrest
          cases h
          obtain ⟨hcalled, hnexts⟩ := ih hrest
          exact ⟨by rw [List.map_cons, hcalled], by rw [List.map_cons, List.map_cons, hnexts]⟩
        · rename_i hfailed
          exact (hfailed _ _ h).elim

/-! ## Phases -/

namespace Partition

variable {p q : Partition M} {stage : Stage} {phase own : Nat} {i : PartitionId}

/-- The calls of untimed handlers in a phase that begins here. -/
def calls (p : Partition M) (stage : Stage) (phase : Nat) : List (PhaseCall M) :=
  phaseCalls (.after p.id stage phase) p.participants p.phaseContext

def acts (p : Partition M) (stage : Stage) (phase : Nat) : List (PhaseAct M.Payload) :=
  (p.calls stage phase).flatMap (·.acts)

def mails (p : Partition M) (stage : Stage) (phase : Nat) : List (LinkEnd × M.Payload) :=
  PhaseAct.mails p.routes (p.acts stage phase)

def box (p : Partition M) (j : PartitionId) : List (Scheduled M.Payload) :=
  (p.member.outbound[j]?.getD {}).activities

/-- Nothing in partition `i` waits for the end of a phase. -/
structure Clear (p : Partition M) (i : PartitionId) : Prop where
  id : p.id = i
  serves : p.routes.Serves i
  held : p.inbox.held = []
  boxes : ∀ j, p.box j = []

/-- A phase that began in `p` has ended in `q`, all handlers have been called, and so many events
were kept in the partition. -/
structure Posts (stage : Stage) (phase : Nat) (p q : Partition M) (own : Nat) : Prop where
  phased : p.Phased q
  called : (p.calls stage phase).map (·.participant) = p.participants
  nexts : (p.calls stage phase).map (·.next?) = q.participants.map some
  kept : own = (PhaseAct.mailTo p.id (p.mails stage phase)).length
  boxes : ∀ j, q.box j = if j = p.id then [] else
    (PhaseAct.mailTo j (p.mails stage phase)).map Activity.ofMail
  held : q.inbox.held = []
  queues : ∀ link,
    p.inbox.on link ++ Event.on link (PhaseAct.mailTo p.id (p.mails stage phase)) =
      PhaseAct.readOn link (p.acts stage phase) ++ q.inbox.on link
  answers : ∀ (before after : List (PhaseAct M.Payload)) (link : LinkId)
    (answer : Option M.Payload), p.acts stage phase = before ++ .read link answer :: after →
      answer = (p.inbox.on link)[(PhaseAct.readOn link before).length]?
  unread : p.inbox.readable.length + own =
    (PhaseAct.reads (p.acts stage phase)).length + q.inbox.readable.length

theorem Clear.did (h : p.Clear i) (stage : Stage) (phase : Nat) :
    p.phaseContext.Did (p.acts stage phase)
      (callParticipants (.after p.id stage phase) p.participants p.phaseContext).1 := by
  have hserves : p.phaseContext.routes.Serves p.phaseContext.partition := by
    show p.routes.Serves p.id
    rw [h.id]
    exact h.serves
  exact did_callParticipants (.after p.id stage phase) p.participants hserves

/-- Handlers that send nothing have no mails, and the others have. -/
theorem Clear.mails_eq_nil_iff (h : p.Clear i) :
    p.mails stage phase = [] ↔ ∀ act ∈ p.acts stage phase, ¬ act.IsSent := by
  have hdid := h.did stage phase
  unfold mails PhaseAct.mails
  rw [List.filterMap_eq_nil_iff]
  refine forall_congr' fun act => imp_congr_right fun hact => ?_
  constructor
  · intro hnone hsent
    have hsome := hdid.posted act hact hsent
    rw [show p.phaseContext.routes = p.routes from rfl, hnone] at hsome
    cases hsome
  · intro hread
    cases act with
    | sent link payload => exact absurd trivial hread
    | read link answer => rfl

theorem Clear.posts (h : p.Clear i) (hrun : p.runPhase stage phase = (.ok own, q)) :
    Posts stage phase p q own := by
  have hphased := phased_runPhase p stage phase
  rw [hrun] at hphased
  have hdid := h.did stage phase
  unfold runPhase at hrun
  split at hrun
  · cases hrun
  split at hrun
  · cases hrun
  · cases hrun
  · rename_i ctx participants hcalls
    cases hrun
    obtain ⟨hcalled, hnexts⟩ := calls_of_callParticipants hcalls
    rw [hcalls] at hdid
    dsimp only at hdid
    have hheld : ctx.inbox.held = PhaseAct.mailTo p.id (p.mails stage phase) := by
      rw [hdid.held]
      show p.inbox.held ++ _ = _
      rw [h.held, List.nil_append]
      rfl
    constructor
    case phased => exact hphased
    case called => exact hcalled
    case nexts => exact hnexts
    case kept => rw [hheld]
    case boxes =>
      intro j
      have hbox := hdid.boxes j
      rw [show p.phaseContext.box j = [] from h.boxes j, List.nil_append] at hbox
      exact hbox
    case held => rfl
    case queues =>
      intro link
      have hqueue : p.inbox.on link = _ := hdid.queues link
      rw [hqueue, List.append_assoc]
      congr 1
      show _ = Event.on link (ctx.inbox.readable ++ ctx.inbox.held)
      rw [hheld, Event.on_append]
      rfl
    case answers => exact hdid.answers
    case unread =>
      have hunread : p.inbox.readable.length = _ := hdid.unread
      show _ = _ + (ctx.inbox.readable ++ ctx.inbox.held).length
      rw [hunread, List.length_append]
      omega

end Partition

end Lookahead

import Lookahead.Clock.Firing
import Lookahead.Proofs.Timeline

/-!
What the programs of handlers come to.

The answers that a program gets depend on its desk alone: on the partition's link ends, on the
present instant and priority, on how many other partitions can be reached, on the requests that wait
and on the shared state. What it leaves behind is its reply: the sends that it made, in order, the
requests, the state and its value. Running a program carries its sends to the timeline and to the
outboxes and changes nothing else (`Program.run_eq`).
-/

namespace Lookahead

variable {κ σ π α : Type}

/-! ## Sends -/

/-- A send that succeeded: on which link end it was made, what the table knew about that link end,
when, with which delay, and what was sent. -/
structure Sent (π : Type) where
  source : LinkEnd
  route : Route
  sentAt : Time
  delay : Nat
  payload : π

namespace Sent

def due (s : Sent π) : Time := (s.sentAt.after s.route.latency).after s.delay

def target (s : Sent π) : LinkEnd :=
  match s.route.delivery with
  | .unwired => s.source
  | .within link => ⟨s.source.partition, link⟩
  | .across peer => peer

def leaves (s : Sent π) : Bool :=
  match s.route.delivery with
  | .across _ => true
  | _ => false

def activity (s : Sent π) : Scheduled π where
  time := s.due
  priority := Priority.event
  payload := .deliver ⟨s.target.link, s.payload⟩

/-- What is queued in the partition itself, in the order of sending. -/
def kept (sends : List (Sent π)) : List (Scheduled π) :=
  (sends.filter fun s => !s.leaves).map activity

def bound (sends : List (Sent π)) (j : PartitionId) : List (Scheduled π) :=
  (sends.filter fun s => s.leaves && s.target.partition == j).map activity

/-- Put a send that leaves into the outbox of its destination. -/
def post (s : Sent π) (outbound : List (Outbox π)) : List (Outbox π) :=
  if s.leaves then outbound.modify s.target.partition fun box => box.append s.activity
  else outbound

def postAll (sends : List (Sent π)) (outbound : List (Outbox π)) : List (Outbox π) :=
  sends.foldl (fun outbound s => s.post outbound) outbound

theorem kept_append (front back : List (Sent π)) :
    kept (front ++ back) = kept front ++ kept back := by
  simp [kept]

theorem mem_kept {sends : List (Sent π)} {a : Scheduled π} :
    a ∈ kept sends ↔ ∃ s ∈ sends, s.leaves = false ∧ s.activity = a := by
  simp [kept, and_assoc]

/-- Where just those leave that are for another partition, what stays is for its own. -/
theorem target_of_stays {s : Sent π} {i : PartitionId}
    (h : s.leaves = true ↔ s.target.partition ≠ i) (hstays : s.leaves = false) :
    s.target.partition = i := by
  refine Decidable.byContradiction fun hne => ?_
  rw [h.mpr hne] at hstays
  cases hstays

theorem mem_bound {sends : List (Sent π)} {j : PartitionId} {a : Scheduled π} :
    a ∈ bound sends j ↔
      ∃ s ∈ sends, s.leaves = true ∧ s.target.partition = j ∧ s.activity = a := by
  simp [bound, and_assoc]

theorem postAll_append (front back : List (Sent π)) (outbound : List (Outbox π)) :
    postAll (front ++ back) outbound = postAll back (postAll front outbound) :=
  List.foldl_append ..

@[simp] theorem length_postAll (sends : List (Sent π)) (outbound : List (Outbox π)) :
    (postAll sends outbound).length = outbound.length := by
  induction sends generalizing outbound with
  | nil => rfl
  | cons s rest ih =>
    have hpost : (s.post outbound).length = outbound.length := by
      unfold post
      split
      · exact List.length_modify ..
      · rfl
    exact (ih _).trans hpost

/-- Every outbox gets what is bound for its destination, behind what it holds. -/
theorem getElem?_postAll (sends : List (Sent π)) (outbound : List (Outbox π)) (j : PartitionId) :
    (postAll sends outbound)[j]? =
      outbound[j]?.map fun box => ⟨box.activities ++ bound sends j⟩ := by
  induction sends generalizing outbound with
  | nil =>
    show outbound[j]? = _
    cases outbound[j]? <;> simp [bound]
  | cons s rest ih =>
    show (postAll rest (s.post outbound))[j]? = _
    rw [ih]
    unfold post
    cases hleaves : s.leaves with
    | false =>
      have : bound (s :: rest) j = bound rest j := by simp [bound, hleaves]
      simp [this]
    | true =>
      by_cases hj : s.target.partition = j
      · have : bound (s :: rest) j = s.activity :: bound rest j := by
          simp [bound, hleaves, hj]
        simp only [↓reduceIte, List.getElem?_modify, hj, this]
        cases outbound[j]? <;> simp
      · have : bound (s :: rest) j = bound rest j := by simp [bound, hleaves, hj]
        simp only [↓reduceIte, List.getElem?_modify, hj, this]
        cases outbound[j]? <;> simp

end Sent

/-! ## Desks and replies -/

/-- All that the answers to a program depend on. -/
structure Desk (κ σ : Type) where
  partition : PartitionId
  routes : RouteTable
  now : Time
  priority : Int
  outboxes : Nat
  requests : ClockRequests κ
  state : σ

namespace Desk

def view (desk : Desk κ σ) : View where
  partition := desk.partition
  now := desk.now
  priority := desk.priority

def send (desk : Desk κ σ) (link : LinkId) (delay : Nat) (payload : π) :
    Except LinkError (Sent π) :=
  match desk.routes.get link with
  | .error e => .error e
  | .ok route =>
    let sent : Sent π := ⟨⟨desk.partition, link⟩, route, desk.now, delay, payload⟩
    match route.delivery with
    | .unwired => .error (.unwired route.name)
    | .within _ => .ok sent
    | .across peer =>
      if peer.partition < desk.outboxes then .ok sent else .error (.noRoute peer.partition)

/-- `s` was made at this desk. -/
structure Made (desk : Desk κ σ) (s : Sent π) : Prop where
  source : s.source.partition = desk.partition
  route : desk.routes.get s.source.link = .ok s.route
  sentAt : s.sentAt = desk.now
  wired : s.route.delivery ≠ .unwired
  reach : s.leaves = true → s.target.partition < desk.outboxes

theorem made_of_send {desk : Desk κ σ} {link : LinkId} {delay : Nat} {payload : π} {s : Sent π}
    (h : desk.send link delay payload = .ok s) : desk.Made s := by
  unfold send at h
  cases hroute : desk.routes.get link with
  | error e => simp [hroute] at h
  | ok route =>
    simp only [hroute] at h
    cases hdelivery : route.delivery with
    | unwired => simp [hdelivery] at h
    | within target =>
      simp only [hdelivery, Except.ok.injEq] at h
      subst h
      exact ⟨rfl, hroute, rfl, by simp [hdelivery], by simp [Sent.leaves, hdelivery]⟩
    | across peer =>
      simp only [hdelivery] at h
      split at h
      · rename_i hreach
        cases h
        refine ⟨rfl, hroute, rfl, by simp [hdelivery], fun _ => ?_⟩
        simpa [Sent.target, hdelivery] using hreach
      · cases h

end Desk

/-- What a program leaves behind: its sends, the requests and the state after it, and its value,
which is missing if it panics. -/
structure Reply (κ σ π α : Type) where
  sends : List (Sent π)
  requests : ClockRequests κ
  state : σ
  value : Option α

def Program.reply : Program κ σ π α → Desk κ σ → Reply κ σ π α
  | .done value, desk => ⟨[], desk.requests, desk.state, some value⟩
  | .panic, desk => ⟨[], desk.requests, desk.state, none⟩
  | .recall next, desk => (next desk.state).reply desk
  | .remember state next, desk => next.reply { desk with state }
  | .latency link next, desk => (next ((desk.routes.get link).map (·.latency))).reply desk
  | .send link delay payload next, desk =>
    match desk.send link delay payload with
    | .ok sent =>
      let reply := (next (.ok ())).reply desk
      { reply with sends := sent :: reply.sends }
    | .error e => (next (.error e)).reply desk
  | .register period handler next, desk =>
    let (handle, requests) := desk.requests.register period handler
    (next handle).reply { desk with requests }
  | .unregister handle next, desk =>
    next.reply { desk with requests := desk.requests.unregister handle }

/-- A send that succeeds comes before all others. -/
theorem Program.reply_send {desk : Desk κ σ} {link : LinkId} {delay : Nat} {payload : π}
    {next : Except LinkError Unit → Program κ σ π α} {sent : Sent π} {reply : Reply κ σ π α}
    (hsend : desk.send link delay payload = .ok sent)
    (hreply : (next (.ok ())).reply desk = reply) :
    (Program.send link delay payload next).reply desk =
      { reply with sends := sent :: reply.sends } := by
  unfold Program.reply
  rw [hsend, hreply]

theorem Program.made_reply (program : Program κ σ π α) (desk : Desk κ σ) :
    ∀ s ∈ (program.reply desk).sends, desk.Made s := by
  induction program generalizing desk with
  | done value => simp [reply]
  | panic => simp [reply]
  | «recall» next ih => exact ih _ desk
  | remember state next ih =>
    intro s hs
    have h := ih { desk with state } s hs
    exact ⟨h.source, h.route, h.sentAt, h.wired, h.reach⟩
  | latency link next ih => exact ih _ desk
  | send link delay payload next ih =>
    intro s hs
    simp only [reply] at hs
    cases hsend : desk.send link delay payload with
    | error e =>
      rw [hsend] at hs
      exact ih _ desk s hs
    | ok sent =>
      rw [hsend] at hs
      rcases List.mem_cons.mp hs with rfl | hs
      · exact Desk.made_of_send hsend
      · exact ih _ desk s hs
  | register period handler next ih =>
    intro s hs
    have h := ih _ { desk with requests := (desk.requests.register period handler).2 } s hs
    exact ⟨h.source, h.route, h.sentAt, h.wired, h.reach⟩
  | unregister handle next ih =>
    intro s hs
    have h := ih { desk with requests := desk.requests.unregister handle } s hs
    exact ⟨h.source, h.route, h.sentAt, h.wired, h.reach⟩

/-! ## Contexts -/

namespace Context

def desk (ctx : Context κ σ π) : Desk κ σ where
  partition := ctx.partition
  routes := ctx.routes
  now := ctx.timeline.now
  priority := ctx.timeline.priority
  outboxes := ctx.outbound.length
  requests := ctx.requests
  state := ctx.state

def carry (ctx : Context κ σ π) (sends : List (Sent π)) : Context κ σ π :=
  { ctx with
    timeline := ctx.timeline.addAll (Sent.kept sends)
    outbound := Sent.postAll sends ctx.outbound }

def after (ctx : Context κ σ π) (reply : Reply κ σ π α) : Context κ σ π :=
  { ctx.carry reply.sends with requests := reply.requests, state := reply.state }

theorem view_eq (ctx : Context κ σ π) : ctx.view = ctx.desk.view := rfl

theorem carry_append (ctx : Context κ σ π) (front back : List (Sent π)) :
    ctx.carry (front ++ back) = (ctx.carry front).carry back := by
  simp [carry, Sent.kept_append, Timeline.addAll_append, Sent.postAll_append]

@[simp] theorem desk_carry (ctx : Context κ σ π) (sends : List (Sent π)) :
    (ctx.carry sends).desk = ctx.desk := by
  simp [desk, carry]

@[simp] theorem desk_after (ctx : Context κ σ π) (reply : Reply κ σ π α) :
    (ctx.after reply).desk =
      { ctx.desk with requests := reply.requests, state := reply.state } := by
  simp [after, desk, carry]

theorem send_eq (ctx : Context κ σ π) (link : LinkId) (delay : Nat) (payload : π) :
    ctx.send link delay payload =
      (ctx.desk.send link delay payload).map fun s => ctx.carry [s] := by
  unfold Context.send Desk.send
  show (ctx.routes.get link).bind _ = _
  have hdesk : ctx.desk.routes = ctx.routes := rfl
  rw [hdesk]
  cases hroute : ctx.routes.get link with
  | error e => rfl
  | ok route =>
    simp only [Except.bind]
    cases hdelivery : route.delivery with
    | unwired => rfl
    | within target =>
      simp [carry, Except.map, Sent.kept, Sent.leaves, hdelivery, Sent.postAll, Sent.post,
        Timeline.insert, Sent.activity, Sent.due, Sent.target, desk, pure, Except.pure]
    | across peer =>
      have hlength : ctx.desk.outboxes = ctx.outbound.length := rfl
      simp only [hlength]
      cases hbox : ctx.outbound[peer.partition]? with
      | none =>
        have : ¬ peer.partition < ctx.outbound.length := by
          simpa using hbox
        simp [this, Except.map, throw, throwThe, MonadExceptOf.throw]
      | some box =>
        obtain ⟨hlt, hget⟩ := List.getElem?_eq_some_iff.mp hbox
        have hset : ∀ new : Outbox π → Outbox π,
            ctx.outbound.set peer.partition (new box) =
              ctx.outbound.modify peer.partition new := by
          intro new
          apply List.ext_getElem?
          intro k
          rw [List.getElem?_set, List.getElem?_modify]
          by_cases hk : peer.partition = k
          · subst hk
            simp [hlt, hget]
          · simp [hk]
        simp [hlt, carry, Except.map, Sent.kept, Sent.leaves, hdelivery, Sent.postAll, Sent.post,
          Sent.activity, Sent.due, Sent.target, desk, pure, Except.pure, ← hset]

end Context

/-- A program carries the sends of its reply to where they go, and changes nothing else but the
requests and the state. -/
theorem Program.run_eq (program : Program κ σ π α) (ctx : Context κ σ π) :
    program.run ctx = (ctx.after (program.reply ctx.desk), (program.reply ctx.desk).value) := by
  induction program generalizing ctx with
  | done value => rfl
  | panic => rfl
  | «recall» next ih => exact ih _ ctx
  | remember state next ih => exact ih _
  | latency link next ih => exact ih _ ctx
  | send link delay payload next ih =>
    simp only [run, reply, Context.send_eq]
    cases hsend : ctx.desk.send link delay payload with
    | error e => simpa [Except.map] using ih _ ctx
    | ok sent =>
      simp only [Except.map]
      rw [ih _ (ctx.carry [sent]), Context.desk_carry]
      have hcarry : ctx.carry (sent :: ((next (.ok ())).reply ctx.desk).sends) =
          (ctx.carry [sent]).carry ((next (.ok ())).reply ctx.desk).sends :=
        Context.carry_append ctx [sent] _
      simp only [Context.after, hcarry]
  | register period handler next ih => exact ih _ _
  | unregister handle next ih => exact ih _

end Lookahead

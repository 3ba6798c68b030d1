import ExecutionFabric.Coordinator.Replies
import ExecutionFabric.Library.Queues

/-!
A connection from the coordinator's side, in every interleaving.

What the threads put into the queue is handled once, and in the order in which
it was put there (`handled_exactly`). Of a connection these are the frames that
were received on it and, at the end and once, the marker that its reader leaves
(`Process.stage`). Each frame is replied to when it is handled, so the replies on
a connection are those to its frames, in their order, up to the marker
(`replies_exact`).
-/

namespace ExecutionFabric

open Collections StepMachine

namespace Process

/-! ### What is put into the queue -/

/-- What a reader leaves. -/
def leaving (p : Process) (conn : ℕ) : Inbound where
  conn := conn
  type := .shutdown
  payload := Turn.closedMarker
  producer := .leaver (decide (conn ∉ p.up))

/-- What an event puts into the queue. -/
def pushes (p : Process) (ev : Event) : List Inbound :=
  if p.coordinator.alive then
    match ev with
    | .receives conn type payload =>
      if p.readers.lookup conn = some .receiving then
        [{ conn, type, payload, producer := .receiver }]
      else []
    | .readerChecks conn =>
      if p.readers.lookup conn = some .checking ∧ p.coordinator.running = false then
        [p.leaving conn]
      else []
    | .recvFails conn =>
      if p.readers.lookup conn = some .receiving ∧ conn ∉ p.up then [p.leaving conn] else []
    | .wakes =>
      if p.stopping = .closing ∧ p.acceptor = .returned then
        [{ conn := 0, type := .shutdown, payload := [], producer := .stop }]
      else []
    | _ => []
  else []

/-- What was put into the queue in a run. -/
def arrivals (p : Process) (evs : List Event) : List Inbound := process.collect pushes p evs

/-- The entries of a connection. -/
def ofConn (c : ℕ) (is : List Inbound) : List Inbound := is.filter fun i => i.conn = c

theorem step_queue (p : Process) (ev : Event) :
    (process.out p ev).toList.map Handled.entry ++ (process.next p ev).queue =
      p.queue ++ p.pushes ev := by
  show (p.step ev).2.toList.map Handled.entry ++ (p.step ev).1.queue = _
  unfold step pushes
  split
  · cases ev with
    | acceptorChecks => simp only [acceptorChecks]; split <;> simp
    | accepts => simp only [accepts]; split <;> simp
    | acceptFails => simp only [acceptFails]; split <;> simp
    | fails conn => simp [fails]
    | readerChecks conn =>
        simp only [readerChecks]
        by_cases hreader : p.readers.lookup conn = some .checking
        · by_cases hrunning : p.coordinator.running = true
          · simp [hreader, hrunning]
          · simp [hreader, hrunning, readerEnds, push, leaving]
        · simp [hreader]
    | receives conn type payload => simp only [receives, push]; split <;> simp
    | recvFails conn => simp only [recvFails]; split <;> simp [readerEnds, push, leaving]
    | decides amb order =>
        simp only [decides]
        split
        · rename_i hqueue
          simp [hqueue]
        · simp
    | stops => simp only [stops]; split <;> simp
    | wakes => simp only [wakes, push]; split <;> simp
    | joins => simp only [joins]; split <;> simp
  · simp

/-- What was handled, followed by what waits, is what was there and what was put
into the queue. -/
theorem queue_arrivals (p : Process) (evs : List Event) :
    entries (process.trace p evs) ++ (process.run p evs).queue = p.queue ++ p.arrivals evs :=
  Machine.queue_exact queue (fun x : Option Handled => x.toList.map Handled.entry) step_queue p evs

/-! ### The life of a connection -/

/-- Whether the connection was accepted, and where its reader is. -/
def place (p : Process) (c : ℕ) : Bool × Option ReaderPoint :=
  (decide (c < p.coordinator.nextConnId), p.readers.lookup c)

/-- What an event does to a connection, and what it puts into the queue for it. -/
inductive Traffic (p : Process) (c : ℕ) : Bool × Option ReaderPoint → List Inbound →
    Bool × Option ReaderPoint → Prop
  | quiet {x : Bool × Option ReaderPoint} : Traffic p c x [] x
  | opens {reader : Option ReaderPoint} : Traffic p c (false, reader) [] (true, some .checking)
  | reads {born : Bool} : Traffic p c (born, some .checking) [] (born, some .receiving)
  | receives {born : Bool} {i : Inbound} (hproducer : i.producer = .receiver) :
      Traffic p c (born, some .receiving) [i] (born, some .checking)
  | ends {born : Bool} {point : ReaderPoint} :
      Traffic p c (born, some point) [p.leaving c] (born, none)

section

variable {p : Process} {c conn : ℕ} {point : ReaderPoint}

theorem ofConn_self {is : List Inbound} (h : ∀ i ∈ is, i.conn = c) : ofConn c is = is :=
  List.filter_eq_self.2 fun i hi => decide_eq_true (h i hi)

theorem ofConn_other {is : List Inbound} (h : ∀ i ∈ is, i.conn = conn) (hne : c ≠ conn) :
    ofConn c is = [] :=
  List.filter_eq_nil_iff.2 fun i hi => by simp [h i hi, hne.symm]

/-- A reader moves on. -/
theorem traffic_insert {is : List Inbound} (his : ∀ i ∈ is, i.conn = conn)
    (h : Traffic p conn (p.place conn) is (decide (conn < p.coordinator.nextConnId), some point)) :
    Traffic p c (p.place c) (ofConn c is)
      (decide (c < p.coordinator.nextConnId), (p.readers.insert conn point).lookup c) := by
  by_cases hc : c = conn
  · subst hc
    rw [ofConn_self his, Finmap.lookup_insert]
    exact h
  · rw [ofConn_other his hc, Finmap.lookup_insert_of_ne _ hc]
    exact .quiet

/-- A reader ends. -/
theorem traffic_erase (h : p.readers.lookup conn = some point) :
    Traffic p c (p.place c) (ofConn c [p.leaving conn])
      (decide (c < p.coordinator.nextConnId), (p.readers.erase conn).lookup c) := by
  have hleaving : ∀ i ∈ [p.leaving conn], i.conn = conn := fun i hi => by
    rw [List.mem_singleton.1 hi]
    rfl
  by_cases hc : c = conn
  · subst hc
    rw [ofConn_self hleaving, Finmap.lookup_erase, place, h]
    exact .ends
  · rw [ofConn_other hleaving hc, Finmap.lookup_erase_ne hc]
    exact .quiet

/-- A connection is accepted. -/
theorem traffic_accepts (p : Process) (c : ℕ) :
    Traffic p c (p.place c) [] (decide (c < p.coordinator.nextConnId + 1),
      (p.readers.insert p.coordinator.nextConnId .checking).lookup c) := by
  by_cases hnew : c = p.coordinator.nextConnId
  · have hbefore : decide (c < p.coordinator.nextConnId) = false := by simp [hnew]
    have hafter : decide (c < p.coordinator.nextConnId + 1) = true := by simp [hnew]
    rw [place, hbefore, hafter, hnew, Finmap.lookup_insert]
    exact .opens
  · have hsame : decide (c < p.coordinator.nextConnId + 1) =
        decide (c < p.coordinator.nextConnId) := by
      rw [decide_eq_decide]
      omega
    rw [hsame, Finmap.lookup_insert_of_ne _ hnew]
    exact .quiet

theorem step_traffic (p : Process) (ev : Event) (hc : 0 < c) :
    Traffic p c (p.place c) (ofConn c (p.pushes ev)) ((process.next p ev).place c) := by
  show Traffic p c _ _ ((p.step ev).1.place c)
  unfold step pushes
  split
  · cases ev with
    | acceptorChecks => simp only [acceptorChecks]; split <;> exact .quiet
    | accepts =>
        simp only [accepts]
        split
        · exact traffic_accepts p c
        · exact .quiet
    | acceptFails => simp only [acceptFails]; split <;> exact .quiet
    | fails conn => exact .quiet
    | readerChecks conn =>
        simp only [readerChecks]
        by_cases hreader : p.readers.lookup conn = some .checking
        · by_cases hrunning : p.coordinator.running = true
          · simp only [hreader, hrunning, if_true]
            refine traffic_insert (fun _ hi => absurd hi List.not_mem_nil) ?_
            rw [place, hreader]
            exact .reads
          · rw [if_pos hreader, if_neg hrunning, if_pos ⟨hreader, Bool.eq_false_iff.2 hrunning⟩]
            exact traffic_erase hreader
        · rw [if_neg hreader, if_neg fun h => hreader h.1]
          exact .quiet
    | receives conn type payload =>
        simp only [receives]
        split
        · rename_i hreader
          refine traffic_insert (fun i hi => ?_) ?_
          · rw [List.mem_singleton.1 hi]
          · rw [place, hreader]
            exact .receives rfl
        · exact .quiet
    | recvFails conn =>
        simp only [recvFails]
        split
        · rename_i hreader
          exact traffic_erase hreader.1
        · exact .quiet
    | decides amb order =>
        simp only [decides]
        split
        · rename_i i rest _ _
          have hnext : (decisionBody p.coordinator i amb order).1.coordinator.nextConnId =
              p.coordinator.nextConnId := by
            rw [decisionBody_eq]
            exact (Turn.decide_steps _ _ _ _ amb order).nextConnId
          simp only [place, hnext]
          exact .quiet
        · exact .quiet
    | stops => simp only [stops]; split <;> exact .quiet
    | wakes =>
        simp only [wakes]
        split
        · have hzero : ofConn c [{ conn := 0, type := .shutdown, payload := [], producer := .stop }]
              = [] := by simp [ofConn, hc.ne]
          rw [hzero]
          exact .quiet
        · exact .quiet
    | joins => simp only [joins]; split <;> exact .quiet
  · exact .quiet

/-- What was put into the queue of a connection, given how far it has come: it
was not accepted, it is being read, or its reader has ended. -/
inductive Stage : Bool × Option ReaderPoint → List Inbound → Prop
  | unborn : Stage (false, none) []
  | reading {is : List Inbound} {point : ReaderPoint} (his : ∀ i ∈ is, i.producer = .receiver) :
      Stage (true, some point) is
  | ended {is : List Inbound} {m : Inbound} (his : ∀ i ∈ is, i.producer = .receiver)
      (hm : m.IsMarker) (hleaver : m.producer ≠ .receiver) : Stage (true, none) (is ++ [m])

theorem Stage.next {x y : Bool × Option ReaderPoint} {is pushed : List Inbound} (h : Stage x is)
    (htraffic : Traffic p c x pushed y) : Stage y (is ++ pushed) := by
  cases htraffic with
  | quiet => rwa [List.append_nil]
  | opens =>
      cases h with
      | unborn => exact .reading fun _ hi => absurd hi List.not_mem_nil
  | reads =>
      cases h with
      | reading his => exact .reading (by rwa [List.append_nil])
  | receives hproducer =>
      cases h with
      | reading his =>
          refine .reading fun i hi => ?_
          rcases List.mem_append.1 hi with hi | hi
          · exact his i hi
          · rwa [List.mem_singleton.1 hi]
  | ends =>
      cases h with
      | reading his => exact .ended his ⟨rfl, rfl⟩ nofun

theorem Stage.unborn_nil {reader : Option ReaderPoint} {is : List Inbound}
    (h : Stage (false, reader) is) : is = [] := by
  cases h with
  | unborn => rfl

/-- In every run, what is put into the queue for a connection are frames that were
received, and at the end, when its reader has ended, one marker. -/
theorem stage (persistent : Bool) (file : Option ByteString) (e₀ : CoordinatorEpoch)
    (evs : List Event) (hc : 0 < c) :
    Stage ((process.run (start persistent file e₀) evs).place c)
      (ofConn c ((start persistent file e₀).arrivals evs)) := by
  induction evs using List.reverseRecOn with
  | nil =>
      have hplace : (start persistent file e₀).place c = (false, none) := by
        have hborn : decide (c < (start persistent file e₀).coordinator.nextConnId) = false := by
          rw [start, Coordinator.construct_nextConnId]
          exact decide_eq_false (by omega)
        rw [place, hborn]
        rfl
      show Stage ((start persistent file e₀).place c) []
      rw [hplace]
      exact .unborn
  | append_singleton evs ev ih =>
      rw [arrivals, Machine.collect_snoc, ofConn, List.filter_append, Machine.run_snoc]
      exact ih.next (step_traffic _ ev hc)

/-! ### Replies -/

/-- The entries of a connection that were handled. -/
def handledFrom (c : ℕ) (h : List (Event × Option Handled)) : List Inbound := ofConn c (entries h)

/-- The types of what was sent on a connection, tickets apart. -/
def repliesTo (c : ℕ) (h : List (Event × Option Handled)) : List MsgType :=
  h.flatMap fun x => x.2.toList.flatMap fun y =>
    (y.turn.replies.filter fun m => m.conn = c).map Sent.type

/-- The types of the replies to some entries of a connection. A marker ends it. -/
def replied (is : List Inbound) : List MsgType :=
  (is.takeWhile fun i => !decide i.IsMarker).filterMap fun i => replyTo i.type i.payload

theorem replied_cons (i : Inbound) (is : List Inbound) :
    replied (i :: is) =
      if i.IsMarker then [] else (replyTo i.type i.payload).toList ++ replied is := by
  unfold replied
  by_cases hmarker : i.IsMarker
  · simp [hmarker]
  · cases hreply : replyTo i.type i.payload <;> simp [hmarker, hreply]

theorem replied_snoc (is : List Inbound) (i : Inbound) :
    replied (is ++ [i]) = replied is ++
      if is.all (fun j => !decide j.IsMarker) && !decide i.IsMarker then
        (replyTo i.type i.payload).toList else [] := by
  induction is with
  | nil =>
      rw [List.nil_append, replied_cons]
      by_cases hmarker : i.IsMarker <;> simp [hmarker, replied]
  | cons j is ih =>
      rw [List.cons_append, replied_cons, replied_cons, ih]
      by_cases hmarker : j.IsMarker <;> simp [hmarker]

/-- What holds of a connection after a history: it is open until a marker was
handled, and its entries were replied to, except for one that ended the thread. -/
structure Session (c : ℕ) (p : Process) (h : List (Event × Option Handled)) : Prop where
  connected : p.coordinator.connected c = (decide (c < p.coordinator.nextConnId) &&
    (handledFrom c h).all fun i => !decide i.IsMarker)
  begun : repliesTo c h <+: replied (handledFrom c h)
  replies : p.coordinator.alive = true → repliesTo c h = replied (handledFrom c h)

/-- Of what arrived on a connection a part was handled, the rest waits. -/
theorem handledFrom_arrivals (c : ℕ) (p : Process) (evs : List Event) :
    handledFrom c (process.trace p evs) ++ ofConn c (process.run p evs).queue =
      ofConn c p.queue ++ ofConn c (p.arrivals evs) := by
  have hall := congrArg (ofConn c) (queue_arrivals p evs)
  simpa only [handledFrom, ofConn, List.filter_append] using hall

theorem handledFrom_snoc (c : ℕ) (h : List (Event × Option Handled)) (ev : Event)
    (out : Option Handled) :
    handledFrom c (h ++ [(ev, out)]) =
      handledFrom c h ++ ofConn c (out.toList.map Handled.entry) := by
  simp [handledFrom, entries, ofConn]

theorem repliesTo_snoc (c : ℕ) (h : List (Event × Option Handled)) (ev : Event)
    (out : Option Handled) :
    repliesTo c (h ++ [(ev, out)]) = repliesTo c h ++ out.toList.flatMap fun y =>
      (y.turn.replies.filter fun m => m.conn = c).map Sent.type := by
  simp [repliesTo]

section

variable {h : List (Event × Option Handled)} {q : Process} {ev : Event}

/-- A step in which nothing is handled. -/
theorem Session.idle (hsession : Session c p h)
    (hconnected : q.coordinator.connected c = (decide (c < q.coordinator.nextConnId) &&
      (handledFrom c h).all fun i => !decide i.IsMarker))
    (halive : q.coordinator.alive = p.coordinator.alive) :
    Session c q (h ++ [(ev, none)]) where
  connected := by
    rw [handledFrom_snoc, hconnected]
    simp [ofConn]
  begun := by
    rw [handledFrom_snoc, repliesTo_snoc]
    simpa [ofConn] using hsession.begun
  replies := by
    rw [handledFrom_snoc, repliesTo_snoc, halive]
    simpa [ofConn] using hsession.replies

/-- The replies of a turn on a connection. -/
theorem turn_repliesTo (halive : p.coordinator.alive = true) (i : Inbound) (amb : Ambient)
    (order : List ℕ) :
    ((p.turn i amb order).replies.filter fun m => m.conn = c).map Sent.type =
      if i.conn = c ∧ p.coordinator.connected c = true ∧
          (p.turn i amb order).coordinator.alive = true then
        (replyTo i.type i.payload).toList else [] := by
  have hpairs := (Turn.decide_replies halive i.conn i.type i.payload amb order).1
  have hmap : ((p.turn i amb order).replies.filter fun m => m.conn = c).map Sent.type =
      (((p.turn i amb order).replies.map fun m => (m.conn, m.type)).filter
        fun x => x.1 = c).map Prod.snd := by
    rw [List.filter_map, List.map_map]
    rfl
  rw [hmap, turn, hpairs]
  by_cases hconn : i.conn = c
  · subst hconn
    cases replyTo i.type i.payload <;> split <;> simp_all
  · cases replyTo i.type i.payload <;> split <;> simp_all

/-- An entry is handled. -/
theorem Session.handled (hsession : Session c p h) (halive : p.coordinator.alive = true)
    {i : Inbound} (hnext : i.conn < p.coordinator.nextConnId) (amb : Ambient) (order : List ℕ)
    (hq : q.coordinator = (p.turn i amb order).coordinator) :
    Session c q (h ++ [(ev, some ⟨i, p.turn i amb order⟩)]) := by
  have hdecided := (Turn.decide_replies halive i.conn i.type i.payload amb order).2 c
  have hnumber : q.coordinator.nextConnId = p.coordinator.nextConnId := by
    rw [hq]
    exact (Turn.decide_steps _ i.conn i.type i.payload amb order).nextConnId
  have hreplies := hsession.replies halive
  have hconnected : q.coordinator.connected c = (p.coordinator.connected c &&
      !(c == i.conn && i.type = .shutdown && i.payload = Turn.closedMarker)) := by
    rw [hq]
    exact hdecided
  by_cases hconn : i.conn = c
  · subst hconn
    have hone : ofConn i.conn ((some (⟨i, p.turn i amb order⟩ : Handled)).toList.map Handled.entry)
        = [i] := by simp [ofConn]
    have hsent : ((some (⟨i, p.turn i amb order⟩ : Handled)).toList.flatMap fun y =>
        (y.turn.replies.filter fun m => m.conn = i.conn).map Sent.type) =
          if i.conn = i.conn ∧ p.coordinator.connected i.conn = true ∧
            (p.turn i amb order).coordinator.alive = true then
            (replyTo i.type i.payload).toList else [] := by
      rw [← turn_repliesTo halive]
      simp
    have hopen : p.coordinator.connected i.conn =
        (handledFrom i.conn h).all fun j => !decide j.IsMarker := by
      rw [hsession.connected, decide_eq_true hnext, Bool.true_and]
    have hform : (i.conn == i.conn && i.type = .shutdown && i.payload = Turn.closedMarker : Bool) =
        decide i.IsMarker := by
      rw [beq_self_eq_true, Bool.true_and, ← Bool.decide_and]
      rfl
    -- the marker is replied to with nothing
    have hreply : (if (handledFrom i.conn h).all (fun j => !decide j.IsMarker) &&
        !decide i.IsMarker then (replyTo i.type i.payload).toList else []) =
          if p.coordinator.connected i.conn then (replyTo i.type i.payload).toList else [] := by
      rw [← hopen]
      by_cases hmarker : i.IsMarker
      · rw [hmarker.1]
        split <;> split <;> rfl
      · simp [hmarker]
    refine ⟨?_, ?_, fun hlives => ?_⟩
    · rw [handledFrom_snoc, hone, hconnected, hnumber, decide_eq_true hnext, hopen, hform]
      simp
    · rw [handledFrom_snoc, repliesTo_snoc, hone, hsent, replied_snoc, hreply, hreplies]
      refine (List.prefix_append_right_inj _).2 ?_
      split
      · rename_i hpos
        rw [if_pos hpos.2.1]
      · exact List.nil_prefix
    · rw [handledFrom_snoc, repliesTo_snoc, hone, hsent, replied_snoc, hreply, hreplies]
      have hlives' : (p.turn i amb order).coordinator.alive = true := hq ▸ hlives
      simp [hlives']
  · have hnone : ofConn c ((some (⟨i, p.turn i amb order⟩ : Handled)).toList.map Handled.entry)
        = [] := by simp [ofConn, hconn]
    have hsilent : ((some (⟨i, p.turn i amb order⟩ : Handled)).toList.flatMap fun y =>
        (y.turn.replies.filter fun m => m.conn = c).map Sent.type) = [] := by
      have hturn := turn_repliesTo halive i amb order (c := c)
      rw [if_neg fun hpos => hconn hpos.1] at hturn
      simpa using hturn
    refine ⟨?_, ?_, fun _ => ?_⟩
    · rw [handledFrom_snoc, hnone, List.append_nil, hconnected, hnumber, hsession.connected]
      simp [Ne.symm hconn]
    · rw [handledFrom_snoc, repliesTo_snoc, hnone, hsilent, List.append_nil, List.append_nil]
      exact hsession.begun
    · rw [handledFrom_snoc, repliesTo_snoc, hnone, hsilent, List.append_nil, List.append_nil]
      exact hreplies

end

theorem alive_of_taken {i : Inbound} (h : p.taken ev = some i) : p.coordinator.alive = true := by
  by_contra hdead
  have hnone : p.taken ev = none := by
    cases ev with
    | decides amb order => exact if_neg fun halive => hdead halive.1
    | _ => rfl
  exact absurd (hnone.symm.trans h) (Option.some_ne_none i).symm

/-- A step of the process, after a run from its start. -/
theorem Session.next {h : List (Event × Option Handled)} (hsession : Session c p h)
    (hnumbered : p.Numbered) (hunborn : p.coordinator.nextConnId ≤ c → handledFrom c h = [])
    (ev : Event) : Session c (process.next p ev) (h ++ [(ev, process.out p ev)]) := by
  have hmoves := p.step_moves ev
  show Session c (p.step ev).1 (h ++ [(ev, (p.step ev).2)])
  generalize p.step ev = y at hmoves
  have hsame : ∀ {q : Process}, q.coordinator.conns = p.coordinator.conns →
      q.coordinator.nextConnId = p.coordinator.nextConnId →
      q.coordinator.alive = p.coordinator.alive → Session c q (h ++ [(ev, none)]) := by
    intro q hconns hnext halive
    refine hsession.idle ?_ halive
    rw [Coordinator.connected, hconns, hnext]
    exact hsession.connected
  cases hmoves with
  | accepted =>
      refine hsession.idle ?_ rfl
      show ((p.coordinator.conns.insert p.coordinator.nextConnId _).lookup c).any _ = _
      by_cases hnew : c = p.coordinator.nextConnId
      · rw [hunborn hnew.ge, hnew, Finmap.lookup_insert]
        simp [Coordinator.accept]
      · rw [Finmap.lookup_insert_of_ne _ hnew]
        refine hsession.connected.trans ?_
        congr 1
        rw [decide_eq_decide]
        show _ ↔ c < p.coordinator.nextConnId + 1
        omega
  | @decided i rest amb order hqueue htaken =>
      have hnext := (hnumbered.queue i (hqueue ▸ List.mem_cons_self)).1
      exact hsession.handled (alive_of_taken htaken) hnext amb order rfl
  | _ => exact hsame rfl rfl rfl

/-- In every run, up to the marker of a connection its entries are replied to. -/
theorem session (persistent : Bool) (file : Option ByteString) (e₀ : CoordinatorEpoch)
    (evs : List Event) (hc : 0 < c) :
    Session c (process.run (start persistent file e₀) evs)
      (process.trace (start persistent file e₀) evs) := by
  induction evs using List.reverseRecOn with
  | nil =>
      have hnone : (start persistent file e₀).coordinator.connected c = false := by
        rw [Coordinator.connected, start, Coordinator.construct_conns]
        rfl
      have hnext : decide (c < (start persistent file e₀).coordinator.nextConnId) = false := by
        rw [start, Coordinator.construct_nextConnId]
        exact decide_eq_false (by omega)
      refine ⟨?_, List.prefix_rfl, fun _ => rfl⟩
      show (start persistent file e₀).coordinator.connected c = _
      rw [hnone]
      show false = (decide (c < (start persistent file e₀).coordinator.nextConnId) && _)
      rw [hnext]
      rfl
  | append_singleton evs ev ih =>
      rw [Machine.run_snoc, Machine.trace_append]
      refine ih.next (numbered persistent file e₀ evs) (fun hunborn => ?_) ev
      have hstage := stage persistent file e₀ evs hc
      rw [place, decide_eq_false (Nat.not_lt.2 hunborn)] at hstage
      have hall := handledFrom_arrivals c (start persistent file e₀) evs
      rw [hstage.unborn_nil] at hall
      exact (List.append_eq_nil_iff.1 hall).1

/-! ### The table -/

/-- No frame that was received has the form of the marker. -/
def Unforged (p : Process) (evs : List Event) : Prop :=
  ∀ i ∈ p.arrivals evs, i.producer = .receiver → ¬i.IsMarker

theorem Unforged.init {evs : List Event} {ev : Event} (h : p.Unforged (evs ++ [ev])) :
    p.Unforged evs := fun i hi => by
  refine h i ?_
  rw [arrivals, Machine.collect_snoc]
  exact List.mem_append_left _ hi

/-- As long as something of a connection waits, its marker was not handled. -/
theorem unmarked_of_waiting (persistent : Bool) (file : Option ByteString) (e₀ : CoordinatorEpoch)
    {evs : List Event} (hforged : (start persistent file e₀).Unforged evs) (hc : 0 < c)
    (hwaits : ofConn c (process.run (start persistent file e₀) evs).queue ≠ []) :
    ∀ i ∈ handledFrom c (process.trace (start persistent file e₀) evs), ¬i.IsMarker := by
  have hstage := stage persistent file e₀ evs hc
  have hall : handledFrom c (process.trace (start persistent file e₀) evs) ++
      ofConn c (process.run (start persistent file e₀) evs).queue =
        ofConn c ((start persistent file e₀).arrivals evs) := handledFrom_arrivals c _ evs
  have hreceived : ∀ i ∈ ofConn c ((start persistent file e₀).arrivals evs),
      i.producer = .receiver → ¬i.IsMarker := fun i hi => hforged i (List.mem_of_mem_filter hi)
  generalize ofConn c ((start persistent file e₀).arrivals evs) = is at hstage hall hreceived
  generalize (process.run (start persistent file e₀) evs).place c = x at hstage
  intro i hi
  cases hstage with
  | unborn => exact absurd (List.append_eq_nil_iff.1 hall).2 hwaits
  | reading his =>
      have hmem : i ∈ is := hall ▸ List.mem_append_left _ hi
      exact hreceived i hmem (his i hmem)
  | @ended is m his hm hleaver =>
      -- the marker is the last one, so what was handled is before it
      obtain ⟨front, last, hfront⟩ := (List.eq_nil_or_concat' _).resolve_left hwaits
      rw [hfront, ← List.append_assoc] at hall
      obtain ⟨hbefore, -⟩ := List.append_inj' hall rfl
      have hmem : i ∈ is := hbefore ▸ List.mem_append_left _ hi
      exact hreceived i (List.mem_append_left _ hmem) (his i hmem)

/-- Every entry of the table is that of a connection. -/
def Tabled (p : Process) : Prop := ∀ c ∈ p.coordinator.conns, p.coordinator.connected c = true

/-- As long as a `HELLO` is handled on a connection that is in the table, the table
has entries of connections only. -/
theorem Tabled.decided (h : p.Tabled) (halive : p.coordinator.alive = true) (i : Inbound)
    (amb : Ambient) (order : List ℕ)
    (hhello : i.type = .hello → p.coordinator.connected i.conn = true) :
    ∀ c ∈ (p.turn i amb order).coordinator.conns,
      (p.turn i amb order).coordinator.connected c = true := by
  intro c hc
  by_cases hmarker : i.IsMarker
  · have hturn : p.turn i amb order =
        Turn.onConnClosed { coordinator := p.coordinator } i.conn amb := by
      rw [turn, Turn.decide, if_pos (show i.type = .shutdown ∧ _ from hmarker)]
    rw [hturn, Turn.conns_onConnClosed] at hc
    obtain ⟨hne, hold⟩ := Finmap.mem_erase.1 hc
    rw [Coordinator.connected, hturn, Turn.conns_onConnClosed, Finmap.lookup_erase_ne hne]
    exact h c hold
  · have hold : p.coordinator.connected c = true := by
      rcases (Turn.decide_steps _ i.conn i.type i.payload amb order).key hc with
        hold | ⟨rfl, htype⟩
      · exact h c hold
      · exact hhello htype
    have hkept := (Turn.decide_replies halive i.conn i.type i.payload amb order).2 c
    refine hkept.trans ?_
    rw [hold, Bool.true_and, Bool.not_eq_true']
    by_contra hform
    simp only [Bool.not_eq_false, Bool.and_eq_true, decide_eq_true_eq] at hform
    exact hmarker ⟨hform.1.2, hform.2⟩

theorem tabled (persistent : Bool) (file : Option ByteString) (e₀ : CoordinatorEpoch)
    (evs : List Event) (hforged : (start persistent file e₀).Unforged evs) :
    (process.run (start persistent file e₀) evs).Tabled := by
  induction evs using List.reverseRecOn with
  | nil =>
      intro c hc
      have hnone : (start persistent file e₀).coordinator.conns = ∅ :=
        Coordinator.construct_conns persistent file e₀
      rw [show (process.run (start persistent file e₀) []).coordinator.conns = ∅ from hnone] at hc
      exact absurd hc Finmap.notMem_empty
  | append_singleton evs ev ih =>
      have htabled := ih hforged.init
      have hnumbered := numbered persistent file e₀ evs
      have hmarkers := fun c => unmarked_of_waiting (c := c) persistent file e₀ hforged.init
      have hsessions := fun c => session (c := c) persistent file e₀ evs
      rw [Machine.run_snoc]
      generalize process.trace (start persistent file e₀) evs = h at hmarkers hsessions
      generalize process.run (start persistent file e₀) evs = p
        at htabled hnumbered hmarkers hsessions
      have hmoves := p.step_moves ev
      show (p.step ev).1.Tabled
      generalize p.step ev = y at hmoves
      cases hmoves with
      | accepted =>
          intro c hc
          show ((p.coordinator.conns.insert p.coordinator.nextConnId _).lookup c).any _ = true
          by_cases hnew : c = p.coordinator.nextConnId
          · rw [hnew, Finmap.lookup_insert]
            rfl
          · rw [Finmap.lookup_insert_of_ne _ hnew]
            exact htabled c ((Finmap.mem_insert.1 hc).resolve_left hnew)
      | @decided i rest amb order hqueue htaken =>
          refine htabled.decided (alive_of_taken htaken) i amb order fun hhello => ?_
          obtain ⟨hnext, hpos⟩ := hnumbered.queue i (hqueue ▸ List.mem_cons_self)
          have hwaits : ofConn i.conn p.queue ≠ [] := List.ne_nil_of_mem
            (List.mem_filter.2 ⟨hqueue ▸ List.mem_cons_self, decide_eq_true rfl⟩)
          rw [(hsessions i.conn (hpos hhello)).connected, decide_eq_true hnext, Bool.true_and,
            List.all_eq_true]
          exact fun j hj => by simpa using hmarkers i.conn (hpos hhello) hwaits j hj
      | _ => exact htabled

end

end Process

/-- In every interleaving, what the threads put into the queue is handled once, in
the order in which it was put there, or waits in this order; and of a connection
these are the frames received on it, followed, if its reader has ended, by one
marker that no one sent. -/
theorem handled_exactly (persistent : Bool) (file : Option ByteString) (e₀ : CoordinatorEpoch)
    (evs : List Process.Event) :
    let p := Process.start persistent file e₀
    Process.entries (process.trace p evs) ++ (process.run p evs).queue = p.arrivals evs ∧
      ∀ c, 0 < c → ∃ frames ending,
        Process.handledFrom c (process.trace p evs) ++ Process.ofConn c (process.run p evs).queue =
            frames ++ ending ∧
          (∀ i ∈ frames, i.producer = .receiver) ∧
          (∀ i ∈ ending, i.IsMarker ∧ i.producer ≠ .receiver) ∧
          ending.length =
            if c < (process.run p evs).coordinator.nextConnId ∧ c ∉ (process.run p evs).readers
              then 1 else 0 := by
  intro p
  refine ⟨p.queue_arrivals evs, fun c hc => ?_⟩
  have hall : _ = Process.ofConn c (p.arrivals evs) := Process.handledFrom_arrivals c p evs
  have hstage := Process.stage persistent file e₀ evs hc
  rw [hall]
  generalize Process.ofConn c (p.arrivals evs) = is at hstage
  unfold Process.place at hstage
  generalize hborn : decide (c < (process.run p evs).coordinator.nextConnId) = born at hstage
  generalize hreader : (process.run p evs).readers.lookup c = reader at hstage
  cases hstage with
  | unborn =>
      refine ⟨[], [], rfl, by simp, by simp, ?_⟩
      rw [if_neg fun h => of_decide_eq_false hborn h.1]
      rfl
  | reading his =>
      refine ⟨is, [], (List.append_nil _).symm, his, by simp, ?_⟩
      rw [if_neg fun h => h.2 (Process.mem_of_reading hreader)]
      rfl
  | ended his hm hleaver =>
      refine ⟨_, _, rfl, his, fun i hi => ?_, ?_⟩
      · rw [List.mem_singleton.1 hi]
        exact ⟨hm, hleaver⟩
      · rw [if_pos ⟨of_decide_eq_true hborn, Finmap.lookup_eq_none.1 hreader⟩]
        rfl

namespace Sample

/-- A client sends a `PING` twice, of which one was handled. -/
def pinging : List Process.Event :=
  accepting ++ receiving 1 .ping [] ++ [.readerChecks 1, .receives 1 .ping []]

end Sample

/-- In every interleaving in which no frame has the form of the marker, the table
has the connections that were accepted and whose marker was not handled, and no
others; and when a marker is handled, so was all that was received. -/
theorem table_exact (persistent : Bool) (file : Option ByteString) (e₀ : CoordinatorEpoch)
    {evs : List Process.Event} (hforged : (Process.start persistent file e₀).Unforged evs)
    {c : ℕ} (hc : 0 < c) :
    let p := Process.start persistent file e₀
    (c ∈ (process.run p evs).coordinator.conns ↔
        c < (process.run p evs).coordinator.nextConnId ∧
          ∀ i ∈ Process.handledFrom c (process.trace p evs), ¬i.IsMarker) ∧
      (c ∈ (process.run p evs).coordinator.conns →
        (process.run p evs).coordinator.connected c = true) ∧
      ((∃ i ∈ Process.handledFrom c (process.trace p evs), i.IsMarker) →
        Process.handledFrom c (process.trace p evs) = Process.ofConn c (p.arrivals evs)) := by
  intro p
  have hsession := Process.session persistent file e₀ evs hc
  have htabled := Process.tabled persistent file e₀ evs hforged c
  have hmem : (process.run p evs).coordinator.connected c = true →
      c ∈ (process.run p evs).coordinator.conns := by
    intro hconnected
    obtain ⟨entry, hentry, -⟩ := (Option.any_eq_true _ _).1 hconnected
    exact Finmap.mem_of_lookup_eq_some hentry
  refine ⟨⟨fun hold => ?_, fun hopen => hmem ?_⟩, htabled, fun hmarker => ?_⟩
  · have hconnected := htabled hold
    rw [hsession.connected, Bool.and_eq_true, decide_eq_true_eq, List.all_eq_true] at hconnected
    exact ⟨hconnected.1, fun i hi => by simpa using hconnected.2 i hi⟩
  · rw [hsession.connected, decide_eq_true hopen.1, Bool.true_and, List.all_eq_true]
    exact fun i hi => by simpa using hopen.2 i hi
  · have hall : _ = Process.ofConn c (p.arrivals evs) := Process.handledFrom_arrivals c p evs
    have hnone : Process.ofConn c (process.run p evs).queue = [] := by
      by_contra hwaits
      obtain ⟨i, hi, hmarker⟩ := hmarker
      exact Process.unmarked_of_waiting persistent file e₀ hforged hc hwaits i hi hmarker
    rwa [hnone, List.append_nil] at hall

/-- The connection of the client is in the table. -/
theorem table_pinging :
    1 ∈ (process.run (.start false none ⟨1⟩) Sample.pinging).coordinator.conns := by
  have hforged : (Process.start false none ⟨1⟩).Unforged Sample.pinging := by
    intro i hi _ hmarker
    have hpings : ∀ j ∈ (Process.start false none ⟨1⟩).arrivals Sample.pinging, j.type = .ping := by
      decide +kernel
    exact absurd (hmarker.1.symm.trans (hpings i hi)) (by decide)
  exact (table_exact false none ⟨1⟩ hforged Nat.one_pos).1.2
    ⟨by decide +kernel, by decide +kernel⟩

end ExecutionFabric

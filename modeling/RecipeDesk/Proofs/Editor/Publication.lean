import RecipeDesk.Editor.Session
import RecipeDesk.Proofs.Document.Reopening

/-!
# Publishing while messages are worked off together

A message about a document is worked off in pieces: it draws its ticket when it arrives; later the
text is read; later the store is written; and if that write was applied, later its diagnostics are
published, provided that the slot still has the ticket. Between two pieces any number of pieces of
other messages may come. A `Server` is a session together with what its messages still have to do
and what has been published; an event is the arrival of a message or the next piece of one of them,
so a list of events is an interleaving. Publishing is one piece: the store is not written meanwhile.

Whatever the interleaving, the publications for a document have increasing tickets, each shows what
the store holds at that moment, and when nothing is left to do, the last one shows what the store
holds in the end (`publications_follow_store`). All three come from one invariant, `Server.Sound`,
whose core is that tickets are drawn once: a ticket in a slot tells which write the slot is from.
-/

namespace RecipeDesk

/-- What the editor is told about a document in this state. -/
def SlotState.notice (uri : String) : SlotState → Notice
  | opened snapshot => .diagnostics uri (some snapshot.version) snapshot.diagnostics
  | closed => .diagnostics uri none []

/-- The next piece of work on a message. -/
inductive Task where
  /-- Read a version that arrived under `ticket`. -/
  | read (ticket : Nat) (document : Document)
  /-- Write to the store. -/
  | write (write : Write)
  /-- Publish a write that was applied. -/
  | publish (write : Write)
deriving DecidableEq, Repr

namespace Task

/-- The ticket of the message. -/
def ticket : Task → Nat
  | .read ticket _ => ticket
  | .write w | .publish w => w.ticket

/-- Whether the store is yet to be written. -/
def isUnwritten : Task → Bool
  | .read .. | .write _ => true
  | .publish _ => false

end Task

/-- Whether a message changes a document. -/
def Incoming.aboutDocument : Incoming → Bool
  | opened .. | changed .. | closed _ => true
  | _ => false

/-- What there is to do about a message that has drawn `ticket`. -/
def Incoming.task? (ticket : Nat) : Incoming → Option Task
  | opened uri version text => some (.read ticket ⟨uri, version, text⟩)
  | changed uri version texts => texts.getLast?.map fun text => .read ticket ⟨uri, version, text⟩
  | closed uri => some (.write ⟨uri, ticket, .closed⟩)
  | _ => none

/-- Diagnostics that went out, with the document and the ticket they went out for. -/
structure Publication where
  /-- The name of the document. -/
  uri : String
  /-- The ticket of the write that was published. -/
  ticket : Nat
  /-- What the editor was sent. -/
  notice : Notice
deriving DecidableEq, Repr

/-- The publication of a write. -/
def Write.publication (write : Write) : Publication :=
  ⟨write.uri, write.ticket, write.slot.state.notice write.uri⟩

/-- A session with messages in hand. -/
structure Server where
  /-- The session. -/
  session : Session
  /-- What is left to do; one task a message. -/
  tasks : List Task
  /-- What has been published, the oldest first. -/
  published : List Publication

/-- What can happen next. -/
inductive Event where
  /-- A message arrives. -/
  | arrive (message : Incoming)
  /-- The task at a place of the list is done. -/
  | perform (index : Nat)

namespace Server

/-- A server in which nothing has happened. -/
def fresh : Server := ⟨.fresh, [], []⟩

variable (server : Server)

/-- The documents. -/
def store : Store := server.session.store

/-- The publications for a document. -/
def publishedFor (uri : String) : List Publication :=
  server.published.filter fun publication => publication.uri = uri

/-- A message arrives. One about a document draws a ticket, any other is dealt with at once. -/
def arrive (message : Incoming) : Server :=
  if message.aboutDocument && !server.session.ended then
    let (ticket, session) := server.session.arrive
    { server with session := session, tasks := (message.task? ticket).toList ++ server.tasks }
  else { server with session := (server.session.handle message).session }

/-- Do a task that has been taken off the list. -/
def perform : Task → Server
  | .read ticket document =>
    let snapshot := Snapshot.ofDocument server.session.vocabulary document
    { server with tasks := .write ⟨document.uri, ticket, .opened snapshot⟩ :: server.tasks }
  | .write write =>
    let (applied, store) := write.attempt server.store
    { server with
      session := { server.session with store := store }
      tasks := if applied then .publish write :: server.tasks else server.tasks }
  | .publish write =>
    if server.store.isLatest write.uri write.ticket then
      { server with published := server.published ++ [write.publication] }
    else server

/-- What an event makes of a server. -/
def step : Event → Server
  | .arrive message => server.arrive message
  | .perform index =>
    match server.tasks[index]? with
    | none => server
    | some task => { server with tasks := server.tasks.eraseIdx index }.perform task

/-- A server after events in this order. -/
def run (events : List Event) : Server := events.foldl step fresh

end Server

/-! ### One message at a time -/

namespace Server

theorem step_perform_of_none {server : Server} {index : Nat} (h : server.tasks[index]? = none) :
    server.step (.perform index) = server := by
  simp only [step, h]

theorem step_perform_of_some {server : Server} {index : Nat} {task : Task}
    (h : server.tasks[index]? = some task) :
    server.step (.perform index) =
      { server with tasks := server.tasks.eraseIdx index }.perform task := by
  simp only [step, h]

theorem perform_write (server : Server) (write : Write) :
    server.perform (.write write) =
      if (server.store.slot? write.uri).any (·.refuses write.slot) then server
      else ⟨{ server.session with store := server.store.put write.uri write.slot },
        .publish write :: server.tasks, server.published⟩ := by
  unfold perform
  dsimp only
  rw [Write.attempt_eq]
  split <;> rfl

theorem perform_publish (server : Server) (write : Write) :
    server.perform (.publish write) =
      if server.store.isLatest write.uri write.ticket then
        { server with published := server.published ++ [write.publication] }
      else server := rfl

/-- A server with nothing left to do has come to an outcome, and has published what the outcome
sends behind what had been published before. -/
structure Delivers (server : Server) (before : List Publication) (outcome : Outcome) : Prop where
  session_eq : server.session = outcome.session
  tasks_eq : server.tasks = []
  sent_eq : server.published.map Publication.notice =
    before.map Publication.notice ++ outcome.sent

end Server

/-- What a write leads to when nothing comes between it and its publication. -/
def Session.settle (session : Session) (write : Write) : Outcome :=
  let (applied, store) := write.attempt session.store
  let next := { session with store := store }
  if applied && store.isLatest write.uri write.ticket then
    next.quiet [write.slot.state.notice write.uri]
  else next.quiet []

theorem Session.refresh_eq_settle (session : Session) (ticket : Nat) (document : Document) :
    session.refresh ticket document =
      session.settle
        ⟨document.uri, ticket, .opened (Snapshot.ofDocument session.vocabulary document)⟩ := rfl

theorem Session.closeDocument_eq_settle (session : Session) (ticket : Nat) (uri : String) :
    session.closeDocument ticket uri = session.settle ⟨uri, ticket, .closed⟩ := rfl

namespace Server

theorem delivers_settle (session : Session) (published : List Publication) (write : Write) :
    let server : Server := ⟨session, [.write write], published⟩
    ((server.step (.perform 0)).step (.perform 0)).Delivers published (session.settle write) := by
  intro server
  unfold Session.settle
  rcases hattempt : write.attempt session.store with ⟨applied, next⟩
  have hwritten : server.step (.perform 0) =
      ⟨{ session with store := next }, if applied then [.publish write] else [], published⟩ := by
    simp [server, step, perform, store, hattempt]
  rw [hwritten]
  cases applied with
  | false => exact ⟨rfl, rfl, (List.append_nil _).symm⟩
  | true =>
      cases hlatest : next.isLatest write.uri write.ticket <;>
        constructor <;>
        simp [step, perform, store, hlatest, Write.publication, Session.quiet]

theorem delivers_refresh (session : Session) (published : List Publication) (ticket : Nat)
    (document : Document) :
    let server : Server := ⟨session, [.read ticket document], published⟩
    (((server.step (.perform 0)).step (.perform 0)).step (.perform 0)).Delivers published
      (session.refresh ticket document) := by
  rw [Session.refresh_eq_settle]
  exact delivers_settle session published _

/-- A message about a document that is worked off before the next one arrives leads to what the
session makes of it. -/
theorem delivers_handle (session : Session) (published : List Publication) {message : Incoming}
    (h : message.aboutDocument = true) :
    let server : Server := ⟨session, [], published⟩
    ((((server.step (.arrive message)).step (.perform 0)).step (.perform 0)).step
      (.perform 0)).Delivers published (session.handle message) := by
  intro server
  cases hended : session.ended with
  | true => constructor <;> simp [server, step, arrive, Session.handle, hended]
  | false =>
      have harrive : server.step (.arrive message) =
          ⟨session.arrive.2, (message.task? session.arrive.1).toList, published⟩ := by
        simp [server, step, arrive, h, hended]
      rw [harrive, Session.handle, hended]
      cases message with
      | opened uri version text => exact delivers_refresh session.arrive.2 published _ _
      | changed uri version texts =>
          simp only [Incoming.task?, Session.serve]
          cases texts.getLast? with
          | none => exact ⟨rfl, rfl, (List.append_nil _).symm⟩
          | some text => exact delivers_refresh session.arrive.2 published _ _
      | closed uri =>
          have hclose := delivers_settle session.arrive.2 published ⟨uri, session.arrive.1, .closed⟩
          rw [← Session.closeDocument_eq_settle] at hclose
          exact (step_perform_of_none (by rw [hclose.tasks_eq]; rfl)).symm ▸ hclose
      | _ => cases h

end Server

/-! ### What every interleaving keeps -/

theorem Store.isLatest_iff {store : Store} {uri : String} {ticket : Nat} :
    store.isLatest uri ticket = true ↔
      ∃ slot, store.slot? uri = some slot ∧ slot.ticket = ticket := by
  unfold isLatest
  cases store.slot? uri <;> simp

theorem Incoming.of_task?_eq_some {message : Incoming} {ticket : Nat} {task : Task}
    (h : message.task? ticket = some task) : task.ticket = ticket ∧ task.isUnwritten = true := by
  cases message with
  | opened uri version text =>
      cases h
      exact ⟨rfl, rfl⟩
  | changed uri version texts =>
      obtain ⟨text, -, rfl⟩ := Option.map_eq_some_iff.mp h
      exact ⟨rfl, rfl⟩
  | closed uri =>
      cases h
      exact ⟨rfl, rfl⟩
  | _ => cases h

/-- Only messages about documents touch the documents, and only while the session lasts. -/
theorem Session.store_handle {session : Session} {message : Incoming}
    (h : (message.aboutDocument && !session.ended) = false) :
    (session.handle message).session.store = session.store := by
  unfold handle
  split
  · rfl
  · next hended =>
      have hask (uri : String) (question : Snapshot → Except Refusal Answer) :
          (session.ask uri question).session.store = session.store := by
        unfold ask
        split <;> rfl
      cases message with
      | hello options => rfl
      | helloDone => rfl
      | completion uri line column => exact hask ..
      | prepareRename uri line column => exact hask ..
      | rename uri line column newName => exact hask ..
      | shutdown => rfl
      | _ => simp [Incoming.aboutDocument, hended] at h

namespace Server

/-- What holds of a server after any events. -/
structure Sound (server : Server) : Prop where
  /-- Tickets in hand have been drawn. -/
  task_lt : ∀ task ∈ server.tasks, task.ticket < server.store.nextTicket
  /-- Tickets in the store have been drawn. -/
  slot_lt : ∀ uri slot, server.store.slot? uri = some slot →
    slot.ticket < server.store.nextTicket
  /-- No two messages have the same ticket. -/
  tasks_nodup : (server.tasks.map Task.ticket).Nodup
  /-- What is yet to be written is not in the store. -/
  unwritten : ∀ task ∈ server.tasks, task.isUnwritten = true →
    ∀ uri slot, server.store.slot? uri = some slot → slot.ticket ≠ task.ticket
  /-- What is yet to be published has not been published. -/
  unpublished : ∀ task ∈ server.tasks, ∀ publication ∈ server.published,
    publication.ticket ≠ task.ticket
  /-- What is to be published has been written, and stands unless a later ticket was written. -/
  written : ∀ write, .publish write ∈ server.tasks →
    ∃ slot, server.store.slot? write.uri = some slot ∧
      (slot = write.slot ∨ write.ticket < slot.ticket)
  /-- Publications are not ahead of the store. -/
  published_le : ∀ publication ∈ server.published,
    ∃ slot, server.store.slot? publication.uri = some slot ∧ publication.ticket ≤ slot.ticket
  /-- Publications for a document have increasing tickets. -/
  increasing : server.published.Pairwise fun p q => p.uri = q.uri → p.ticket < q.ticket
  /-- What the store holds has been published or is to be. -/
  shown : ∀ uri slot, server.store.slot? uri = some slot →
    .publish ⟨uri, slot⟩ ∈ server.tasks ∨ (Write.mk uri slot).publication ∈ server.published

theorem sound_fresh : fresh.Sound := by
  constructor <;> simp [fresh, store, Session.fresh, Store.empty, Store.slot?]

/-- Only the documents, the tasks and the publications matter, and of the tasks not the order. -/
theorem Sound.congr {server other : Server} (h : server.Sound) (hstore : other.store = server.store)
    (htasks : other.tasks.Perm server.tasks) (hpublished : other.published = server.published) :
    other.Sound := by
  constructor
  · simpa only [htasks.mem_iff, hstore] using h.task_lt
  · simpa only [hstore] using h.slot_lt
  · exact (htasks.map Task.ticket).nodup_iff.mpr h.tasks_nodup
  · simpa only [htasks.mem_iff, hstore] using h.unwritten
  · simpa only [htasks.mem_iff, hpublished] using h.unpublished
  · simpa only [htasks.mem_iff, hstore] using h.written
  · simpa only [hpublished, hstore] using h.published_le
  · simpa only [hpublished] using h.increasing
  · simpa only [htasks.mem_iff, hpublished, hstore] using h.shown

section Tasks

variable {session : Session} {tasks : List Task} {published : List Publication} {task : Task}
  {write : Write}

/-- A task may be dropped, unless it is to publish the last write. -/
theorem Sound.drop (h : Sound ⟨session, task :: tasks, published⟩)
    (htask : ∀ w, task = .publish w → session.store.isLatest w.uri w.ticket = false) :
    Sound ⟨session, tasks, published⟩ where
  task_lt := (List.forall_mem_cons.mp h.task_lt).2
  slot_lt := h.slot_lt
  tasks_nodup := (List.nodup_cons.mp h.tasks_nodup).2
  unwritten := (List.forall_mem_cons.mp h.unwritten).2
  unpublished := (List.forall_mem_cons.mp h.unpublished).2
  written w hw := h.written w (List.mem_cons_of_mem _ hw)
  published_le := h.published_le
  increasing := h.increasing
  shown uri slot hslot := by
    refine (h.shown uri slot hslot).imp_left fun hmem => List.mem_of_ne_of_mem ?_ hmem
    intro hself
    have hlatest : session.store.isLatest uri slot.ticket = true :=
      Store.isLatest_iff.mpr ⟨slot, hslot, rfl⟩
    exact Bool.false_ne_true ((htask _ hself.symm).symm.trans hlatest)

/-- A task that has written nothing may be added under a ticket that is not in use. -/
theorem Sound.add (h : Sound ⟨session, tasks, published⟩) (htask : task.isUnwritten = true)
    (hlt : task.ticket < session.store.nextTicket)
    (htasks : ∀ other ∈ tasks, other.ticket ≠ task.ticket)
    (hslots : ∀ uri slot, session.store.slot? uri = some slot → slot.ticket ≠ task.ticket)
    (hpublished : ∀ publication ∈ published, publication.ticket ≠ task.ticket) :
    Sound ⟨session, task :: tasks, published⟩ where
  task_lt := List.forall_mem_cons.mpr ⟨hlt, h.task_lt⟩
  slot_lt := h.slot_lt
  tasks_nodup := by
    refine List.nodup_cons.mpr ⟨fun hmem => ?_, h.tasks_nodup⟩
    obtain ⟨other, hother, hsame⟩ := List.mem_map.mp hmem
    exact htasks other hother hsame
  unwritten := List.forall_mem_cons.mpr ⟨fun _ => hslots, h.unwritten⟩
  unpublished := List.forall_mem_cons.mpr ⟨hpublished, h.unpublished⟩
  written w hw := by
    refine h.written w (List.mem_of_ne_of_mem ?_ hw)
    rintro rfl
    cases htask
  published_le := h.published_le
  increasing := h.increasing
  shown uri slot hslot := (h.shown uri slot hslot).imp_left (List.mem_cons_of_mem _)

theorem Sound.ticket_ne (h : Sound ⟨session, task :: tasks, published⟩) :
    ∀ other ∈ tasks, other.ticket ≠ task.ticket := by
  intro other hother hsame
  exact (List.nodup_cons.mp h.tasks_nodup).1 (hsame ▸ List.mem_map_of_mem hother)

/-- A task that has written nothing may give way to the next one of its message. -/
theorem Sound.replace {next : Task} (h : Sound ⟨session, task :: tasks, published⟩)
    (htask : task.isUnwritten = true) (hnext : next.isUnwritten = true)
    (hticket : next.ticket = task.ticket) : Sound ⟨session, next :: tasks, published⟩ := by
  have hnot : ∀ w, task = .publish w → session.store.isLatest w.uri w.ticket = false := by
    rintro w rfl
    cases htask
  refine (h.drop hnot).add hnext ?_ ?_ ?_ ?_ <;> rw [hticket]
  · exact h.task_lt task List.mem_cons_self
  · exact h.ticket_ne
  · exact h.unwritten task List.mem_cons_self htask
  · exact h.unpublished task List.mem_cons_self

/-- A ticket is drawn. -/
theorem Sound.draw (h : Sound ⟨session, tasks, published⟩) :
    Sound ⟨session.arrive.2, tasks, published⟩ where
  task_lt other hother := Nat.lt_succ_of_lt (h.task_lt other hother)
  slot_lt uri slot hslot := Nat.lt_succ_of_lt (h.slot_lt uri slot hslot)
  tasks_nodup := h.tasks_nodup
  unwritten := h.unwritten
  unpublished := h.unpublished
  written := h.written
  published_le := h.published_le
  increasing := h.increasing
  shown := h.shown

theorem Sound.published_lt (h : Sound ⟨session, tasks, published⟩) :
    ∀ publication ∈ published, publication.ticket < session.store.nextTicket := by
  intro publication hmem
  obtain ⟨slot, hslot, hle⟩ := h.published_le publication hmem
  exact Nat.lt_of_le_of_lt hle (h.slot_lt _ slot hslot)

theorem Sound.arrive {server : Server} (h : server.Sound) (message : Incoming) :
    (server.arrive message).Sound := by
  obtain ⟨session, tasks, published⟩ := server
  unfold Server.arrive
  split
  · show Sound ⟨session.arrive.2, (message.task? session.arrive.1).toList ++ tasks, published⟩
    cases htask : message.task? session.arrive.1 with
    | none => exact h.draw
    | some task =>
        obtain ⟨hticket, hunwritten⟩ := Incoming.of_task?_eq_some htask
        have hnew : task.ticket = session.store.nextTicket := hticket
        refine h.draw.add hunwritten ?_ ?_ ?_ ?_ <;> rw [hnew]
        · exact Nat.lt_succ_self _
        · exact fun other hother => Nat.ne_of_lt (h.task_lt other hother)
        · exact fun uri slot hslot => Nat.ne_of_lt (h.slot_lt uri slot hslot)
        · exact fun p hp => Nat.ne_of_lt (h.published_lt p hp)
  · next hother =>
      exact h.congr (Session.store_handle (Bool.eq_false_iff.mpr hother)) (List.Perm.refl _) rfl

/-- What is to be published and has the ticket of its slot is what the slot holds. -/
theorem Sound.slot?_of_isLatest (h : Sound ⟨session, .publish write :: tasks, published⟩)
    (hlatest : session.store.isLatest write.uri write.ticket = true) :
    session.store.slot? write.uri = some write.slot := by
  obtain ⟨slot, hslot, hwritten⟩ := h.written write List.mem_cons_self
  obtain ⟨current, hcurrent, hticket⟩ := Store.isLatest_iff.mp hlatest
  obtain rfl : slot = current := Option.some.inj (hslot.symm.trans hcurrent)
  rcases hwritten with rfl | hlt
  · exact hslot
  · exact absurd hticket (Nat.ne_of_gt hlt)

theorem Sound.stored (h : Sound ⟨session, .write write :: tasks, published⟩)
    (haccepted : ¬ (session.store.slot? write.uri).any (·.refuses write.slot)) :
    Sound ⟨{ session with store := session.store.put write.uri write.slot },
      .publish write :: tasks, published⟩ := by
  have hput (uri : String) : (session.store.put write.uri write.slot).slot? uri =
      if uri = write.uri then some write.slot else session.store.slot? uri :=
    Store.slot?_put session.store write.uri uri write.slot
  -- what the write replaces has a smaller ticket
  have hlater : ∀ slot, session.store.slot? write.uri = some slot → slot.ticket < write.ticket := by
    intro slot hslot
    have hne := h.unwritten (.write write) List.mem_cons_self rfl write.uri slot hslot
    rw [hslot, Option.any_some, Bool.not_eq_true] at haccepted
    exact Nat.lt_of_le_of_ne (Slot.ticket_le_of_not_refuses haccepted) hne
  -- so tickets of a document only grow
  have hgrow : ∀ uri slot, session.store.slot? uri = some slot →
      ∃ next, (session.store.put write.uri write.slot).slot? uri = some next ∧
        (next = slot ∨ slot.ticket < next.ticket) := by
    intro uri slot hslot
    rw [hput]
    by_cases huri : uri = write.uri
    · subst huri
      exact ⟨write.slot, if_pos rfl, Or.inr (hlater slot hslot)⟩
    · exact ⟨slot, (if_neg huri).trans hslot, Or.inl rfl⟩
  constructor
  · exact List.forall_mem_cons.mpr (List.forall_mem_cons.mp h.task_lt)
  · intro uri slot hslot
    replace hslot := (hput uri).symm.trans hslot
    split at hslot
    · obtain rfl : write.slot = slot := Option.some.inj hslot
      exact h.task_lt (.write write) List.mem_cons_self
    · exact h.slot_lt uri slot hslot
  · exact h.tasks_nodup
  · intro task htask hunwritten uri slot hslot
    replace htask : task ∈ tasks := List.mem_of_ne_of_mem (by rintro rfl; cases hunwritten) htask
    replace hslot := (hput uri).symm.trans hslot
    split at hslot
    · obtain rfl : write.slot = slot := Option.some.inj hslot
      exact (h.ticket_ne task htask).symm
    · exact h.unwritten task (List.mem_cons_of_mem _ htask) hunwritten uri slot hslot
  · exact List.forall_mem_cons.mpr (List.forall_mem_cons.mp h.unpublished)
  · intro w hw
    rcases List.mem_cons.mp hw with hself | hw
    · obtain rfl : w = write := Task.publish.inj hself
      exact ⟨w.slot, (hput w.uri).trans (if_pos rfl), Or.inl rfl⟩
    · obtain ⟨slot, hslot, hwritten⟩ := h.written w (List.mem_cons_of_mem _ hw)
      obtain ⟨next, hnext, hgrown⟩ := hgrow w.uri slot hslot
      refine ⟨next, hnext, ?_⟩
      rcases hwritten with rfl | hlt
      · exact hgrown
      · rcases hgrown with rfl | hgrown
        · exact Or.inr hlt
        · exact Or.inr (Nat.lt_trans hlt hgrown)
  · intro publication hpublication
    obtain ⟨slot, hslot, hle⟩ := h.published_le publication hpublication
    obtain ⟨next, hnext, hgrown⟩ := hgrow publication.uri slot hslot
    refine ⟨next, hnext, ?_⟩
    rcases hgrown with rfl | hgrown
    · exact hle
    · exact Nat.le_trans hle (Nat.le_of_lt hgrown)
  · exact h.increasing
  · intro uri slot hslot
    replace hslot := (hput uri).symm.trans hslot
    split at hslot
    · next huri =>
        obtain rfl : write.slot = slot := Option.some.inj hslot
        subst huri
        exact Or.inl List.mem_cons_self
    · next huri =>
        refine (h.shown uri slot hslot).imp_left fun hmem => List.mem_cons_of_mem _ ?_
        exact List.mem_of_ne_of_mem (by simp) hmem

/-- The last publication shows the slot. -/
theorem Sound.publish (h : Sound ⟨session, .publish write :: tasks, published⟩)
    (hlatest : session.store.isLatest write.uri write.ticket = true) :
    Sound ⟨session, tasks, published ++ [write.publication]⟩ := by
  have hslot := h.slot?_of_isLatest hlatest
  constructor
  · exact (List.forall_mem_cons.mp h.task_lt).2
  · exact h.slot_lt
  · exact (List.nodup_cons.mp h.tasks_nodup).2
  · exact (List.forall_mem_cons.mp h.unwritten).2
  · intro task htask
    have hearlier := h.unpublished task (List.mem_cons_of_mem _ htask)
    have hself : write.publication.ticket ≠ task.ticket := (h.ticket_ne task htask).symm
    exact List.forall_mem_append.mpr ⟨hearlier, List.forall_mem_singleton.mpr hself⟩
  · exact fun w hw => h.written w (List.mem_cons_of_mem _ hw)
  · refine List.forall_mem_append.mpr ⟨h.published_le, List.forall_mem_singleton.mpr ?_⟩
    exact ⟨write.slot, hslot, Nat.le_refl _⟩
  · refine List.pairwise_append.mpr ⟨h.increasing, List.pairwise_singleton _ _, ?_⟩
    intro earlier hearlier last hlast huri
    obtain rfl : last = write.publication := List.mem_singleton.mp hlast
    obtain ⟨slot, hcurrent, hle⟩ := h.published_le earlier hearlier
    have hne := h.unpublished (.publish write) List.mem_cons_self earlier hearlier
    rw [huri] at hcurrent
    obtain rfl : slot = write.slot := Option.some.inj (hcurrent.symm.trans hslot)
    exact Nat.lt_of_le_of_ne hle hne
  · intro uri slot hcurrent
    rcases h.shown uri slot hcurrent with hmem | hmem
    · rcases List.mem_cons.mp hmem with hself | hmem
      · obtain rfl := Task.publish.inj hself
        exact Or.inr (List.mem_append_right _ List.mem_cons_self)
      · exact Or.inl hmem
    · exact Or.inr (List.mem_append_left _ hmem)

theorem Sound.perform (h : Sound ⟨session, task :: tasks, published⟩) :
    (Server.perform ⟨session, tasks, published⟩ task).Sound := by
  cases task with
  | read ticket document => exact h.replace rfl rfl rfl
  | write write =>
      rw [perform_write]
      split
      · exact h.drop nofun
      · next haccepted => exact h.stored haccepted
  | publish write =>
      rw [perform_publish]
      split
      · next hlatest => exact h.publish hlatest
      · next hstale =>
          refine h.drop fun w hw => ?_
          obtain rfl := Task.publish.inj hw
          exact Bool.eq_false_iff.mpr hstale

end Tasks

/-- The task at a place, brought to the front. -/
theorem Sound.front {server : Server} (h : server.Sound) {index : Nat} {task : Task}
    (htask : server.tasks[index]? = some task) :
    Sound ⟨server.session, task :: server.tasks.eraseIdx index, server.published⟩ := by
  obtain ⟨hindex, rfl⟩ := List.getElem?_eq_some_iff.mp htask
  exact h.congr rfl (List.getElem_cons_eraseIdx_perm hindex) rfl

/-- One event. -/
theorem Sound.step {server : Server} (h : server.Sound) (event : Event) :
    (server.step event).Sound := by
  cases event with
  | arrive message => exact h.arrive message
  | perform index =>
      cases htask : server.tasks[index]? with
      | none =>
          rw [step_perform_of_none htask]
          exact h
      | some task =>
          rw [step_perform_of_some htask]
          exact (h.front htask).perform

/-- All events. -/
theorem sound_run (events : List Event) : (run events).Sound := by
  induction events using List.reverseRecOn with
  | nil => exact sound_fresh
  | append_singleton events event ih =>
      rw [run, List.foldl_append]
      exact ih.step event

/-! ### What is published -/

theorem published_arrive (server : Server) (message : Incoming) :
    (server.arrive message).published = server.published := by
  unfold arrive
  split <;> rfl

/-- An event publishes nothing, or what the store holds. -/
theorem Sound.published_step {server : Server} (h : server.Sound) (event : Event) :
    (server.step event).published = server.published ∨
      ∃ uri slot, server.store.slot? uri = some slot ∧
        (server.step event).published = server.published ++ [(Write.mk uri slot).publication] := by
  cases event with
  | arrive message => exact Or.inl (server.published_arrive message)
  | perform index =>
      cases htask : server.tasks[index]? with
      | none => exact Or.inl (by rw [step_perform_of_none htask])
      | some task =>
          rw [step_perform_of_some htask]
          cases task with
          | read ticket document => exact Or.inl rfl
          | write write =>
              rw [perform_write]
              split <;> exact Or.inl rfl
          | publish write =>
              rw [perform_publish]
              split
              · next hlatest =>
                  have hslot := (h.front htask).slot?_of_isLatest hlatest
                  exact Or.inr ⟨write.uri, write.slot, hslot, rfl⟩
              · exact Or.inl rfl

/-- A document that has been written stays known. -/
theorem isSome_slot?_step {server : Server} {uri : String}
    (h : (server.store.slot? uri).isSome = true) (event : Event) :
    ((server.step event).store.slot? uri).isSome = true := by
  cases event with
  | arrive message =>
      have hslots : (server.arrive message).store.slot? uri = server.store.slot? uri := by
        unfold arrive
        split
        · rfl
        · next hother =>
            have hstore := Session.store_handle (Bool.eq_false_iff.mpr hother)
            simp only [store, hstore]
      rw [step, hslots]
      exact h
  | perform index =>
      cases htask : server.tasks[index]? with
      | none =>
          rw [step_perform_of_none htask]
          exact h
      | some task =>
          rw [step_perform_of_some htask]
          cases task with
          | read ticket document => exact h
          | write write =>
              rw [perform_write]
              split
              · exact h
              · have hput := Store.slot?_put server.store write.uri uri write.slot
                simp only [store] at h hput ⊢
                rw [hput]
                split
                · rfl
                · exact h
          | publish write =>
              rw [perform_publish]
              split <;> exact h

theorem isSome_slot?_run {before events : List Event} {uri : String} (hearlier : before <+: events)
    (h : ((run before).store.slot? uri).isSome = true) :
    ((run events).store.slot? uri).isSome = true := by
  obtain ⟨more, rfl⟩ := hearlier
  induction more using List.reverseRecOn with
  | nil => rwa [List.append_nil]
  | append_singleton more event ih =>
      rw [← List.append_assoc, run, List.foldl_append]
      exact isSome_slot?_step ih event

/-- The greatest of increasing tickets is the last. -/
theorem getLast?_of_increasing {publications : List Publication} {publication : Publication}
    (h : publications.Pairwise fun p q => p.ticket < q.ticket) (hmem : publication ∈ publications)
    (hgreatest : ∀ other ∈ publications, other.ticket ≤ publication.ticket) :
    publications.getLast? = some publication := by
  induction publications using List.reverseRecOn with
  | nil => cases hmem
  | append_singleton earlier last _ =>
      rw [List.getLast?_concat]
      rcases List.mem_append.mp hmem with hearlier | hlast
      · have hlt := (List.pairwise_append.mp h).2.2 publication hearlier last List.mem_cons_self
        have hle := hgreatest last (List.mem_append_right _ List.mem_cons_self)
        exact absurd hle (Nat.not_le.mpr hlt)
      · rw [List.mem_singleton.mp hlast]

theorem Sound.publishedFor_increasing {server : Server} (h : server.Sound) (uri : String) :
    (server.publishedFor uri).Pairwise fun p q => p.ticket < q.ticket := by
  refine (h.increasing.sublist List.filter_sublist).imp_of_mem fun hp hq hlt => hlt ?_
  rw [of_decide_eq_true (List.mem_filter.mp hp).2, of_decide_eq_true (List.mem_filter.mp hq).2]

/-- When nothing is left to do, the last publication shows the slot. -/
theorem Sound.getLast?_publishedFor {server : Server} (h : server.Sound) (hdone : server.tasks = [])
    {uri : String} {slot : Slot} (hslot : server.store.slot? uri = some slot) :
    (server.publishedFor uri).getLast? = some (Write.mk uri slot).publication := by
  refine getLast?_of_increasing (h.publishedFor_increasing uri) ?_ fun other hother => ?_
  · rcases h.shown uri slot hslot with hmem | hmem
    · rw [hdone] at hmem
      cases hmem
    · exact List.mem_filter.mpr ⟨hmem, decide_eq_true rfl⟩
  · obtain ⟨hmem, huri⟩ := List.mem_filter.mp hother
    obtain ⟨current, hcurrent, hle⟩ := h.published_le other hmem
    rw [of_decide_eq_true huri, hslot] at hcurrent
    obtain rfl : slot = current := Option.some.inj hcurrent
    exact hle

end Server

/-- **Publications follow the store.** Whatever has happened, the publications for a document have
increasing tickets. An event publishes at most once, and what the store holds at that moment: the
diagnostics and the version of an open document, no diagnostics for a closed one. When nothing is
left to do, the last publication for every document that was ever written is that of the write the
store still holds. -/
theorem publications_follow_store (events : List Event) :
    let server := Server.run events
    (∀ uri, (server.publishedFor uri).Pairwise fun p q => p.ticket < q.ticket) ∧
    (∀ event, (server.step event).published = server.published ∨
      ∃ uri slot, server.store.slot? uri = some slot ∧
        (server.step event).published =
          server.published ++ [⟨uri, slot.ticket, slot.state.notice uri⟩]) ∧
    (server.tasks = [] → ∀ uri before, before <+: events →
      ((Server.run before).store.slot? uri).isSome = true →
      ∃ slot, server.store.slot? uri = some slot ∧
        (server.publishedFor uri).getLast? = some ⟨uri, slot.ticket, slot.state.notice uri⟩) := by
  intro server
  have hsound : server.Sound := Server.sound_run events
  refine ⟨hsound.publishedFor_increasing, hsound.published_step, ?_⟩
  intro hdone uri before hearlier hwritten
  obtain ⟨slot, hslot⟩ := Option.isSome_iff_exists.mp (Server.isSome_slot?_run hearlier hwritten)
  exact ⟨slot, hslot, hsound.getLast?_publishedFor hdone hslot⟩

/-- Two versions are written one after the other before either is published. The first one is then
passed over, and the second is published last. -/
theorem publications_follow_store_superseded :
    let events : List Event :=
      [.arrive (.opened "a" 1 "# t"), .arrive (.changed "a" 2 ["# u"]), .perform 1, .perform 1,
        .perform 1, .perform 1, .perform 1, .perform 0]
    let snapshot := Snapshot.ofDocument .standard ⟨"a", 2, "# u"⟩
    let server := Server.run events
    server.tasks = [] ∧ ((Server.run events).store.slot? "a").isSome = true ∧
      (server.publishedFor "a").getLast? =
        some ⟨"a", 1, .diagnostics "a" (some 2) snapshot.diagnostics⟩ := by
  intro events snapshot server
  have hdone : server.tasks = [] := rfl
  have hwritten : ((Server.run events).store.slot? "a").isSome = true := rfl
  obtain ⟨slot, hslot, hlast⟩ := (publications_follow_store events).2.2 hdone "a" events
    List.prefix_rfl hwritten
  have hheld : server.store.slot? "a" = some ⟨1, .opened snapshot⟩ := rfl
  obtain rfl : slot = ⟨1, .opened snapshot⟩ := Option.some.inj (hslot.symm.trans hheld)
  exact ⟨hdone, hwritten, hlast⟩

end RecipeDesk

import Mathlib.Data.List.Infix
import RecipeDesk.Proofs.Document.Reopening

/-!
# The store moves forward

Four calls reach the store. Updates and closes write to it, publications and lookups only read. This
is about all of them, in any order and with any tickets and versions; a run may start from any store,
so what is said about its beginning and its end holds between any two moments.

A call leaves the store as it is, or it is a write and replaces the slot of its name by one that the
slot does not refuse (`Store.perform_cases`). What a slot does not refuse has no smaller ticket and,
between two versions of an open document, no smaller version. The bounds on a run follow by induction
over its calls. For tickets a step is enough, because they are compared whatever the state of the
document is. Versions are not compared across a close, so there the document has to be open after
every call (`Store.version_le_run`).
-/

namespace RecipeDesk

/-! ### Calls -/

/-- A call on the store. -/
inductive Call where
  /-- Store a snapshot. -/
  | update (uri : String) (ticket : Nat) (snapshot : Snapshot)
  /-- Close a document. -/
  | close (uri : String) (ticket : Nat)
  /-- Publish what the write with this ticket has stored, if it is still the last one. -/
  | publish (uri : String) (ticket : Nat)
  /-- Look a document up. -/
  | get (uri : String)
deriving DecidableEq, Repr

/-- What a call returns. -/
inductive Reply where
  /-- Whether the write was applied. -/
  | wrote (applied : Bool)
  /-- Whether the publication took place. -/
  | published (sent : Bool)
  /-- The snapshot of an open document. -/
  | found (snapshot? : Option Snapshot)
deriving DecidableEq, Repr

/-- The write that a call attempts. -/
def Call.write? : Call → Option Write
  | update uri ticket snapshot => some ⟨uri, ticket, .opened snapshot⟩
  | close uri ticket => some ⟨uri, ticket, .closed⟩
  | publish .. | get _ => none

namespace Store

/-- The reply to a call, and the store after it. -/
def perform (store : Store) : Call → Reply × Store
  | .update uri ticket snapshot =>
    let (applied, next) := store.update uri ticket snapshot
    (.wrote applied, next)
  | .close uri ticket =>
    let (applied, next) := store.close uri ticket
    (.wrote applied, next)
  | .publish uri ticket => (.published (store.isLatest uri ticket), store)
  | .get uri => (.found (store.get? uri), store)

/-- The store after calls in this order. -/
def run (store : Store) (calls : List Call) : Store :=
  calls.foldl (fun store call => (store.perform call).2) store

/-! ### One call -/

theorem perform_of_write {store : Store} {call : Call} {write : Write}
    (h : call.write? = some write) :
    store.perform call = (.wrote (write.attempt store).1, (write.attempt store).2) := by
  cases call with
  | update uri ticket snapshot =>
      cases h
      rfl
  | close uri ticket =>
      cases h
      rfl
  | _ => cases h

/-- A call leaves the store as it is, or it is a write that is not refused. -/
theorem perform_cases (store : Store) (call : Call) :
    ((store.perform call).1 ≠ .wrote true ∧ (store.perform call).2 = store) ∨
      ∃ write, call.write? = some write ∧
        (store.slot? write.uri).any (·.refuses write.slot) = false ∧
        store.perform call = (.wrote true, store.put write.uri write.slot) := by
  cases hwrite : call.write? with
  | none =>
      refine Or.inl ?_
      cases call with
      | publish uri ticket => simp [perform]
      | get uri => simp [perform]
      | _ => cases hwrite
  | some write =>
      rw [perform_of_write hwrite, Write.attempt_eq]
      cases hrefused : (store.slot? write.uri).any (·.refuses write.slot) with
      | true => exact Or.inl (by simp)
      | false => exact Or.inr ⟨write, rfl, hrefused, by simp⟩

end Store

theorem Slot.refuses_self (slot : Slot) : slot.refuses slot = false := by
  unfold refuses
  cases slot.state <;> simp [Document.supersedes]

namespace Store

variable {store : Store} {uri : String}

theorem refused_iff {call : Call} {write : Write} (h : call.write? = some write) :
    (store.perform call).1 = .wrote false ↔
      ∃ slot, store.slot? write.uri = some slot ∧ slot.refuses write.slot = true := by
  rw [perform_of_write h, Write.attempt_eq]
  cases store.slot? write.uri with
  | none => simp
  | some slot => cases hrefused : slot.refuses write.slot <;> simp [hrefused]

/-- A slot stays, and gives way only to what it does not refuse. -/
theorem slot?_perform {slot : Slot} (h : store.slot? uri = some slot) (call : Call) :
    ∃ next, (store.perform call).2.slot? uri = some next ∧ slot.refuses next = false := by
  rcases store.perform_cases call with ⟨-, hsame⟩ | ⟨write, -, haccepted, hput⟩
  · exact ⟨slot, by rw [hsame, h], slot.refuses_self⟩
  · simp only [hput, slot?_put]
    by_cases huri : uri = write.uri
    · subst huri
      rw [h] at haccepted
      exact ⟨write.slot, if_pos rfl, haccepted⟩
    · exact ⟨slot, (if_neg huri).trans h, slot.refuses_self⟩

/-- A version gives way only to versions that are not smaller. -/
theorem version_le_perform {call : Call} {held next : Snapshot} (h : store.get? uri = some held)
    (hnext : (store.perform call).2.get? uri = some next) : held.version ≤ next.version := by
  obtain ⟨ticket, hslot⟩ := get?_eq_some_iff.mp h
  obtain ⟨later, hlater⟩ := get?_eq_some_iff.mp hnext
  obtain ⟨slot, hstored, haccepted⟩ := slot?_perform hslot call
  obtain rfl : slot = ⟨later, .opened next⟩ := Option.some.inj (hstored.symm.trans hlater)
  exact Slot.version_le_of_not_refuses rfl rfl haccepted

/-- A close is applied, or comes upon a greater ticket. -/
theorem ticket_le_close (store : Store) (uri : String) (ticket : Nat) :
    ∃ slot, (store.perform (.close uri ticket)).2.slot? uri = some slot ∧ ticket ≤ slot.ticket := by
  show ∃ slot, (store.close uri ticket).2.slot? uri = some slot ∧ ticket ≤ slot.ticket
  unfold close
  split
  · next hrefused =>
      cases hslot : store.slot? uri with
      | none => simp [hslot] at hrefused
      | some slot =>
          rw [hslot, Option.any_some, decide_eq_true_eq] at hrefused
          exact ⟨slot, rfl, Nat.le_of_lt hrefused⟩
  · exact ⟨⟨ticket, .closed⟩, by rw [slot?_put, if_pos rfl], Nat.le_refl ticket⟩

/-! ### All calls of a run -/

theorem ticket_le_run {slot : Slot} (h : store.slot? uri = some slot) (calls : List Call) :
    ∃ later, (store.run calls).slot? uri = some later ∧ slot.ticket ≤ later.ticket := by
  induction calls generalizing store slot with
  | nil => exact ⟨slot, h, Nat.le_refl _⟩
  | cons call calls ih =>
      obtain ⟨next, hnext, haccepted⟩ := slot?_perform h call
      obtain ⟨later, hlater, hle⟩ := ih hnext
      exact ⟨later, hlater, Nat.le_trans (Slot.ticket_le_of_not_refuses haccepted) hle⟩

theorem version_le_run {held : Snapshot} {calls : List Call} (h : store.get? uri = some held)
    (hopen : ∀ middle, middle <+: calls → ((store.run middle).get? uri).isSome = true) :
    ∃ later, (store.run calls).get? uri = some later ∧ held.version ≤ later.version := by
  induction calls generalizing store held with
  | nil => exact ⟨held, h, Int.le_refl _⟩
  | cons call calls ih =>
      obtain ⟨next, hnext⟩ := Option.isSome_iff_exists.mp (hopen [call] (by simp))
      obtain ⟨later, hlater, hle⟩ := ih hnext fun middle hmiddle =>
        hopen (call :: middle) ((List.prefix_cons_inj call).mpr hmiddle)
      exact ⟨later, hlater, Int.le_trans (version_le_perform h hnext) hle⟩

end Store

/-- **The store moves forward.** Over any run of calls, a document keeps its slot and the ticket there
never decreases; nor does the version, as long as the document is open. Once a close has been worked
off, applied or not, the document never again has a smaller ticket. A write is refused exactly if it
would go back; a call that writes nothing leaves the whole store as it is, and an applied write
changes the slot of its own name and nothing else. -/
theorem store_moves_forward (store : Store) (calls : List Call) (uri : String) :
    (∀ slot, store.slot? uri = some slot →
      ∃ later, (store.run calls).slot? uri = some later ∧ slot.ticket ≤ later.ticket) ∧
    (∀ held, store.get? uri = some held →
      (∀ middle, middle <+: calls → ((store.run middle).get? uri).isSome = true) →
      ∃ later, (store.run calls).get? uri = some later ∧ held.version ≤ later.version) ∧
    (∀ ticket, ∃ slot, (store.run (.close uri ticket :: calls)).slot? uri = some slot ∧
      ticket ≤ slot.ticket) ∧
    (∀ call write, call.write? = some write →
      ((store.perform call).1 = .wrote false ↔ ∃ slot, store.slot? write.uri = some slot ∧
        (write.slot.ticket < slot.ticket ∨ ∃ held next, slot.state = .opened held ∧
          write.slot.state = .opened next ∧ next.version < held.version))) ∧
    (∀ call, (store.perform call).1 ≠ .wrote true → (store.perform call).2 = store) ∧
    (∀ call, (store.perform call).1 = .wrote true →
      ∃ write, call.write? = some write ∧
        (store.perform call).2.nextTicket = store.nextTicket ∧
        (store.perform call).2.slot? write.uri = some write.slot ∧
        ∀ other, other ≠ write.uri → (store.perform call).2.slot? other = store.slot? other) := by
  refine ⟨fun slot h => Store.ticket_le_run h calls, fun held => Store.version_le_run,
    ?_, ?_, ?_, ?_⟩
  · intro ticket
    obtain ⟨slot, hslot, hle⟩ := store.ticket_le_close uri ticket
    obtain ⟨later, hlater, hgrown⟩ := Store.ticket_le_run hslot calls
    exact ⟨later, hlater, Nat.le_trans hle hgrown⟩
  · intro call write hwrite
    simpa only [Slot.refuses_iff] using Store.refused_iff hwrite
  · intro call hreply
    rcases store.perform_cases call with ⟨-, hsame⟩ | ⟨write, -, -, hput⟩
    · exact hsame
    · exact absurd (congrArg Prod.fst hput) hreply
  · intro call hreply
    rcases store.perform_cases call with ⟨hnot, -⟩ | ⟨write, hwrite, -, hput⟩
    · exact absurd hreply hnot
    · rw [hput]
      refine ⟨write, hwrite, rfl, ?_, fun other hother => ?_⟩
      · rw [Store.slot?_put, if_pos rfl]
      · rw [Store.slot?_put, if_neg hother]

/-- A run in which a close comes too late, a version too early is refused, and another document is
opened in between. -/
theorem store_moves_forward_late_close :
    let snapshot (version : Int) : Snapshot := ⟨⟨"a", version, ""⟩, .standard, none, []⟩
    let store := Store.empty.run [.update "a" 1 (snapshot 1)]
    let calls : List Call := [.close "a" 0, .update "a" 4 (snapshot 3), .publish "a" 1,
      .update "b" 2 (snapshot 7), .update "a" 5 (snapshot 2), .get "a"]
    store.get? "a" = some (snapshot 1) ∧
      (∀ middle, middle <+: calls → ((store.run middle).get? "a").isSome = true) ∧
      ∃ later, (store.run calls).get? "a" = some later ∧ 1 ≤ later.version := by
  intro snapshot store calls
  have hopen : ∀ middle ∈ calls.inits, ((store.run middle).get? "a").isSome = true := by decide
  replace hopen : ∀ middle, middle <+: calls → ((store.run middle).get? "a").isSome = true :=
    fun middle hmiddle => hopen middle ((List.mem_inits middle calls).mpr hmiddle)
  exact ⟨rfl, hopen, (store_moves_forward store calls "a").2.1 (snapshot 1) rfl hopen⟩

end RecipeDesk

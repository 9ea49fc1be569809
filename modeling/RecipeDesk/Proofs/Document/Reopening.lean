import Mathlib.Data.List.Perm.Basic
import RecipeDesk.Proofs.Document.LastArrival

/-!
# Reopening a document

An editor that closes a document and opens it again may count its versions anew. The update of the
reopening then has the greatest ticket and possibly a small version. What becomes of it depends on
the writes that were applied before it:

* once stored, it stays, because every other write of the document has a smaller ticket;
* it is stored, unless the document is at that moment open on a later version.

The second can happen, because the close between the two openings may be applied after both of them.
The reopening is then refused for its version, and the close, whose turn comes later, finds a
smaller ticket than its own and leaves the document closed. So a reopening is safe in every order
exactly if no update of the document carries a later version (`reopening_survives_iff`).
-/

namespace RecipeDesk

/-! ### What one write does to the slots -/

namespace Write

theorem slot?_apply (store : Store) (write : Write) (uri : String) :
    (write.apply store).slot? uri =
      if uri = write.uri ∧ ¬ (store.slot? uri).any (·.refuses write.slot) then some write.slot
      else store.slot? uri := by
  rw [apply_eq]
  by_cases huri : uri = write.uri
  · subst huri
    split
    · next hrefused => simp [hrefused]
    · next haccepted => simp [haccepted, Store.slot?_put]
  · split
    · simp [huri]
    · simp [huri, Store.slot?_put]

theorem applyAll_append (before after : List Write) :
    applyAll (before ++ after) = after.foldl apply (applyAll before) := List.foldl_append

/-- A slot holds what some write to its name has left. -/
theorem exists_of_slot?_applyAll {order : List Write} {uri : String} {slot : Slot}
    (h : (applyAll order).slot? uri = some slot) :
    ∃ write ∈ order, write.uri = uri ∧ write.slot = slot := by
  induction order using List.reverseRecOn with
  | nil => cases h
  | append_singleton done write ih =>
      rw [applyAll_append, List.foldl_cons, List.foldl_nil, slot?_apply] at h
      split at h
      · next hself => exact ⟨write, by simp, hself.1.symm, Option.some.inj h⟩
      · obtain ⟨earlier, hmem, hearlier⟩ := ih h
        exact ⟨earlier, List.mem_append_left _ hmem, hearlier⟩

/-- A slot stays as long as all writes to its name have smaller tickets. -/
theorem slot?_foldl_of_ticket_lt {later : List Write} {store : Store} {uri : String} {slot : Slot}
    (hslot : store.slot? uri = some slot)
    (hless : ∀ write ∈ later, write.uri = uri → write.ticket < slot.ticket) :
    (later.foldl apply store).slot? uri = some slot := by
  induction later generalizing store with
  | nil => exact hslot
  | cons write later ih =>
      refine ih ?_ fun w hw => hless w (List.mem_cons_of_mem _ hw)
      rw [slot?_apply, if_neg, hslot]
      rintro ⟨huri, hstored⟩
      have hticket : write.slot.ticket < slot.ticket := hless write List.mem_cons_self huri.symm
      simp [hslot, Slot.refuses, hticket] at hstored

end Write

theorem Store.get?_eq_some_iff {store : Store} {uri : String} {snapshot : Snapshot} :
    store.get? uri = some snapshot ↔
      ∃ ticket, store.slot? uri = some ⟨ticket, .opened snapshot⟩ := by
  unfold get?
  constructor
  · intro h
    obtain ⟨⟨ticket, state⟩, hslot, hstate⟩ := Option.bind_eq_some_iff.mp h
    cases state with
    | opened current =>
        obtain rfl : current = snapshot := Option.some.inj hstate
        exact ⟨ticket, hslot⟩
    | closed => cases hstate
  · rintro ⟨ticket, hslot⟩
    rw [hslot]
    rfl

/-- A slot defends its ticket, and while the document is open its version. -/
theorem Slot.refuses_iff {current next : Slot} :
    current.refuses next = true ↔
      next.ticket < current.ticket ∨ ∃ held snapshot, current.state = .opened held ∧
        next.state = .opened snapshot ∧ snapshot.version < held.version := by
  unfold refuses
  cases current.state with
  | closed => simp
  | opened held =>
      cases next.state with
      | closed => simp
      | opened snapshot => simp [Document.supersedes, Snapshot.version]

/-- Against greater tickets, an open document defends a later version, and nothing else. -/
theorem Slot.refuses_opened_iff {current : Slot} {ticket : Nat} {snapshot : Snapshot}
    (h : current.ticket ≤ ticket) :
    current.refuses ⟨ticket, .opened snapshot⟩ = true ↔
      ∃ held, current.state = .opened held ∧ snapshot.version < held.version := by
  simp [refuses_iff, Nat.not_lt.mpr h]

theorem Slot.ticket_le_of_not_refuses {current next : Slot} (h : current.refuses next = false) :
    current.ticket ≤ next.ticket := by
  by_contra hless
  have hrefused := refuses_iff.mpr (Or.inl (Nat.not_le.mp hless))
  exact Bool.false_ne_true (h.symm.trans hrefused)

theorem Slot.version_le_of_not_refuses {current next : Slot} {held snapshot : Snapshot}
    (hheld : current.state = .opened held) (hnext : next.state = .opened snapshot)
    (h : current.refuses next = false) : held.version ≤ snapshot.version := by
  by_contra hless
  have hrefused := refuses_iff.mpr (Or.inr ⟨held, snapshot, hheld, hnext, Int.not_le.mp hless⟩)
  exact Bool.false_ne_true (h.symm.trans hrefused)

/-! ### Versions that only grow -/

namespace Write

/-- Whether a write is an update. -/
def isUpdate (write : Write) : Bool := write.slot.state.snapshot?.isSome

theorem isUpdate_iff {write : Write} :
    write.isUpdate = true ↔ ∃ snapshot, write.slot.state = .opened snapshot := by
  unfold isUpdate
  cases write.slot.state <;> simp [SlotState.snapshot?]

theorem state_of_not_isUpdate {write : Write} (h : write.isUpdate = false) :
    write.slot.state = .closed := by
  unfold isUpdate at h
  cases hstate : write.slot.state with
  | opened snapshot => simp [hstate, SlotState.snapshot?] at h
  | closed => rfl

/-- Updates leave an open document open, on the version it had or a later one. -/
theorem opened_foldl_updates {updates : List Write} {store : Store} {uri : String} {version : Int}
    (hupdates : ∀ write ∈ updates, write.isUpdate = true)
    (h : ∃ held, store.get? uri = some held ∧ version ≤ held.version) :
    ∃ held, (updates.foldl apply store).get? uri = some held ∧ version ≤ held.version := by
  induction updates generalizing store with
  | nil => exact h
  | cons write updates ih =>
      refine ih (fun w hw => hupdates w (List.mem_cons_of_mem _ hw)) ?_
      obtain ⟨held, hheld, hversion⟩ := h
      obtain ⟨ticket, hslot⟩ := Store.get?_eq_some_iff.mp hheld
      obtain ⟨next, hnext⟩ := isUpdate_iff.mp (hupdates write List.mem_cons_self)
      simp only [Store.get?_eq_some_iff, slot?_apply]
      split
      · next hstored =>
          rw [hslot] at hstored
          have hlater := Slot.version_le_of_not_refuses rfl hnext (by simpa using hstored.2)
          refine ⟨next, ⟨write.slot.ticket, ?_⟩, Int.le_trans hversion hlater⟩
          rw [← hnext]
      · exact ⟨held, ⟨ticket, hslot⟩, hversion⟩

/-- Closes open nothing. -/
theorem get?_foldl_closes {closes : List Write} {store : Store} {uri : String}
    {snapshot : Snapshot} (hcloses : ∀ write ∈ closes, write.slot.state = .closed)
    (h : (closes.foldl apply store).get? uri = some snapshot) :
    store.get? uri = some snapshot := by
  induction closes generalizing store with
  | nil => exact h
  | cons write closes ih =>
      have hget := ih (fun w hw => hcloses w (List.mem_cons_of_mem _ hw)) h
      obtain ⟨ticket, hslot⟩ := Store.get?_eq_some_iff.mp hget
      rw [slot?_apply] at hslot
      split at hslot
      · have hclosed := hcloses write List.mem_cons_self
        rw [Option.some.inj hslot] at hclosed
        cases hclosed
      · exact Store.get?_eq_some_iff.mpr ⟨ticket, hslot⟩

/-! ### The update with the greatest ticket -/

section Reopening

variable {writes : List Write} {reopening : Write} {snapshot : Snapshot}

/-- The update with the greatest ticket is kept, unless it comes upon a later version. -/
theorem slot?_applyAll_reopening {before after : List Write}
    (htickets : ((before ++ reopening :: after).map ticket).Nodup)
    (hopened : reopening.slot.state = .opened snapshot)
    (hgreatest : ∀ w ∈ before ++ reopening :: after, w.uri = reopening.uri →
      w.ticket ≤ reopening.ticket) :
    (applyAll (before ++ reopening :: after)).slot? reopening.uri = some reopening.slot ↔
      ∀ held, (applyAll before).get? reopening.uri = some held →
        held.version ≤ snapshot.version := by
  have hothers : ∀ w ∈ before ++ after, w.ticket ≠ reopening.ticket := by
    intro w hw heq
    rw [List.map_append, List.map_cons, List.nodup_middle, List.nodup_cons,
      ← List.map_append] at htickets
    exact htickets.1 (heq ▸ List.mem_map_of_mem hw)
  -- what is found on arrival has a smaller ticket, so only its version can refuse
  have hrefuses : ((applyAll before).slot? reopening.uri).any (·.refuses reopening.slot) = true ↔
      ∃ held, (applyAll before).get? reopening.uri = some held ∧
        snapshot.version < held.version := by
    cases hslot : (applyAll before).slot? reopening.uri with
    | none => simp [Store.get?, hslot]
    | some current =>
        obtain ⟨w, hw, huri, rfl⟩ := exists_of_slot?_applyAll hslot
        have hle : w.slot.ticket ≤ reopening.slot.ticket :=
          hgreatest w (List.mem_append_left _ hw) huri
        have hnext : reopening.slot = ⟨reopening.slot.ticket, .opened snapshot⟩ := by
          rw [← hopened]
        rw [Option.any_some, hnext, Slot.refuses_opened_iff hle]
        cases hstate : w.slot.state <;> simp [Store.get?, hslot, hstate, SlotState.snapshot?]
  rw [applyAll_append, List.foldl_cons]
  constructor
  · intro hkept held hheld
    by_contra hlater
    have hrefused := hrefuses.mpr ⟨held, hheld, Int.not_le.mp hlater⟩
    rw [apply_eq, if_pos hrefused, ← applyAll_append] at hkept
    obtain ⟨w, hw, -, hslot⟩ := exists_of_slot?_applyAll hkept
    exact hothers w hw (congrArg Slot.ticket hslot)
  · intro hversions
    have hstored : ¬ ((applyAll before).slot? reopening.uri).any (·.refuses reopening.slot) := by
      rw [hrefuses]
      rintro ⟨held, hheld, hlater⟩
      exact Int.not_le.mpr hlater (hversions held hheld)
    refine slot?_foldl_of_ticket_lt (by rw [slot?_apply, if_pos ⟨rfl, hstored⟩]) fun w hw huri => ?_
    have hle := hgreatest w (by simp [hw]) huri
    exact Nat.lt_of_le_of_ne hle (hothers w (List.mem_append_right _ hw))

/-- Where a later version exists, some order applies it first and the closes last, so that the
document never goes back to the version of the reopening. -/
theorem exists_order_losing {later : Write} {held : Snapshot} (hlater : later ∈ writes)
    (hheld : later.slot.state = .opened held) (hversion : snapshot.version < held.version) :
    ∃ order, order.Perm writes ∧ (applyAll order).get? later.uri ≠ some snapshot := by
  let others := writes.erase later
  let updates := others.filter isUpdate
  let closes := others.filter fun w => !w.isUpdate
  refine ⟨later :: (updates ++ closes), ?_, fun hget => ?_⟩
  · have hsplit : (updates ++ closes).Perm others := List.filter_append_perm isUpdate others
    exact (hsplit.cons later).trans (List.perm_cons_erase hlater).symm
  · have hfirst : (applyAll [later]).get? later.uri = some held := by
      refine Store.get?_eq_some_iff.mpr ⟨later.slot.ticket, ?_⟩
      rw [← hheld]
      exact (slot?_apply .empty later later.uri).trans (if_pos ⟨rfl, nofun⟩)
    rw [← List.singleton_append, applyAll_append, List.foldl_append] at hget
    have hclosed : ∀ w ∈ closes, w.slot.state = .closed := fun w hw =>
      state_of_not_isUpdate (by simpa using (List.mem_filter.mp hw).2)
    have hkept := get?_foldl_closes hclosed hget
    have hupdates : ∀ w ∈ updates, w.isUpdate = true := fun w hw => (List.mem_filter.mp hw).2
    obtain ⟨last, hlast, hle⟩ := opened_foldl_updates hupdates ⟨held, hfirst, Int.le_refl _⟩
    rw [hkept] at hlast
    obtain rfl : snapshot = last := Option.some.inj hlast
    exact Int.not_le.mpr hversion hle

end Reopening

end Write

/-- **When a reopening survives.** The update with the greatest ticket of its document is kept by an
order exactly if it does not come upon a later version of the document; and it is kept by every
order exactly if there is no update of the document with a later version. -/
theorem reopening_survives_iff (writes : List Write) (reopening : Write) (snapshot : Snapshot)
    (htickets : (writes.map Write.ticket).Nodup) (hmem : reopening ∈ writes)
    (hopened : reopening.slot.state = .opened snapshot)
    (hgreatest : ∀ w ∈ writes, w.uri = reopening.uri → w.ticket ≤ reopening.ticket) :
    (∀ before after, (before ++ reopening :: after).Perm writes →
      ((Write.applyAll (before ++ reopening :: after)).slot? reopening.uri = some reopening.slot ↔
        ∀ held, (Write.applyAll before).get? reopening.uri = some held →
          held.version ≤ snapshot.version)) ∧
    ((∀ order, order.Perm writes →
        (Write.applyAll order).get? reopening.uri = some snapshot) ↔
      ∀ w ∈ writes, w.uri = reopening.uri → ∀ held, w.slot.state = .opened held →
        held.version ≤ snapshot.version) := by
  have hone : ∀ before after, (before ++ reopening :: after).Perm writes →
      ((Write.applyAll (before ++ reopening :: after)).slot? reopening.uri = some reopening.slot ↔
        ∀ held, (Write.applyAll before).get? reopening.uri = some held →
          held.version ≤ snapshot.version) := by
    intro before after hperm
    refine Write.slot?_applyAll_reopening ?_ hopened fun w hw => hgreatest w (hperm.mem_iff.mp hw)
    exact (hperm.map Write.ticket).nodup_iff.mpr htickets
  refine ⟨hone, fun hall w hw huri held hheld => ?_, fun hversions order hperm => ?_⟩
  · by_contra hlater
    obtain ⟨order, hperm, hlost⟩ := Write.exists_order_losing hw hheld (Int.not_le.mp hlater)
    exact hlost (huri ▸ hall order hperm)
  · obtain ⟨before, after, rfl⟩ := List.append_of_mem (hperm.mem_iff.mpr hmem)
    have hkept := (hone before after hperm).mpr fun held hheld => by
      obtain ⟨ticket, hslot⟩ := Store.get?_eq_some_iff.mp hheld
      obtain ⟨w, hw, huri, hw'⟩ := Write.exists_of_slot?_applyAll hslot
      exact hversions w (hperm.mem_iff.mp (List.mem_append_left _ hw)) huri held
        (congrArg Slot.state hw')
    refine Store.get?_eq_some_iff.mpr ⟨reopening.slot.ticket, ?_⟩
    rw [hkept, ← hopened]

/-- A reopening with the version of the first opening is kept, whenever the close comes. -/
theorem reopening_survives_same_version :
    let snapshot (text : String) : Snapshot := ⟨⟨"a", 1, text⟩, .standard, none, []⟩
    let reopening : Write := ⟨"a", 2, .opened (snapshot "new")⟩
    let writes : List Write := [⟨"a", 0, .opened (snapshot "old")⟩, ⟨"a", 1, .closed⟩, reopening]
    (writes.map Write.ticket).Nodup ∧ reopening ∈ writes ∧
      (∀ w ∈ writes, w.uri = reopening.uri → w.ticket ≤ reopening.ticket) ∧
      ∀ order, order.Perm writes → (Write.applyAll order).get? "a" = some (snapshot "new") := by
  intro snapshot reopening writes
  have hmem : reopening ∈ writes := by simp [writes]
  have hgreatest : ∀ w ∈ writes, w.uri = reopening.uri → w.ticket ≤ reopening.ticket := by
    simp [writes, reopening, Write.ticket]
  refine ⟨by decide, hmem, hgreatest, ?_⟩
  refine (reopening_survives_iff writes reopening (snapshot "new") (by decide) hmem rfl
    hgreatest).2.mpr ?_
  simp [writes, reopening, snapshot, Snapshot.version]

/-- A reopening may be lost: it comes upon version 5, which was opened before, and is refused; the
close between the two openings comes last and leaves the document closed. -/
theorem reopening_lost :
    let snapshot (version : Int) : Snapshot := ⟨⟨"a", version, ""⟩, .standard, none, []⟩
    let opening : Write := ⟨"a", 0, .opened (snapshot 5)⟩
    let close : Write := ⟨"a", 1, .closed⟩
    let reopening : Write := ⟨"a", 2, .opened (snapshot 1)⟩
    let writes := [opening, close, reopening]
    let order := [opening, reopening, close]
    order.Perm writes ∧ (writes.map Write.ticket).Nodup ∧ close.ticket < reopening.ticket ∧
      (∀ w ∈ writes, w.uri = reopening.uri → w.ticket ≤ reopening.ticket) ∧
      (Write.applyAll order).get? "a" = none := by
  intro snapshot opening close reopening writes order
  refine ⟨(List.Perm.swap close reopening []).cons opening, by decide, by decide, ?_, rfl⟩
  simp [writes, opening, close, reopening, Write.ticket]

end RecipeDesk

import Mathlib.Data.List.Dedup
import Mathlib.Data.List.Induction
import Mathlib.Data.List.MinMax
import Mathlib.Data.List.Nodup
import RecipeDesk.Document.Store

/-!
# The last arrival wins

Writes may reach the store in any order. Whatever the order, in the end every document is as the
write with the greatest ticket left it.

The argument is an invariant of the writes applied so far: the slot of every name is that of the
greatest ticket among them (`Reflects`). A step keeps it (`Reflects.apply`), because a write
is refused exactly if a greater ticket was applied before. This is plain for closing. An update is
also refused by an open document of a later version; but a later version has a later ticket, so this
refusal never comes alone. What has the greatest ticket does not depend on the order, so neither
does the store.
-/

namespace RecipeDesk

/-! ### Writes -/

/-- A write to a document: its name, and the slot to be left, with the ticket. -/
structure Write where
  /-- The name of the document. -/
  uri : String
  /-- The ticket, and what is made of the document: opened by an update, closed by a close. -/
  slot : Slot
deriving DecidableEq, Repr

namespace Write

/-- The ticket of a write. -/
def ticket (write : Write) : Nat := write.slot.ticket

/-- Write to a store. Tells whether the write was applied. -/
def attempt (write : Write) (store : Store) : Bool × Store :=
  match write.slot.state with
  | .opened snapshot => store.update write.uri write.ticket snapshot
  | .closed => store.close write.uri write.ticket

/-- The store after a write. -/
def apply (store : Store) (write : Write) : Store := (write.attempt store).2

/-- The store after writes in this order. -/
def applyAll (order : List Write) : Store := order.foldl apply .empty

/-- The write to a name with the greatest ticket. -/
def last? (writes : List Write) (uri : String) : Option Write :=
  (writes.filter fun write => write.uri = uri).argmax ticket

/-- Among the updates of a document, a greater ticket never carries a smaller version. -/
def VersionsAscend (writes : List Write) : Prop :=
  ∀ a ∈ writes, ∀ b ∈ writes, a.uri = b.uri → a.ticket < b.ticket →
    ∀ s t, a.slot.state = .opened s → b.slot.state = .opened t → s.version ≤ t.version

end Write

/-- Whether a slot refuses to be replaced by another. -/
def Slot.refuses (current next : Slot) : Bool :=
  next.ticket < current.ticket ||
    match current.state, next.state with
    | .opened c, .opened n => !n.document.supersedes c.document
    | _, _ => false

theorem Slot.refuses_opened (current : Slot) (ticket : Nat) (snapshot : Snapshot) :
    current.refuses ⟨ticket, .opened snapshot⟩ = current.refusesUpdate ticket snapshot := by
  unfold refuses refusesUpdate
  cases current.state <;> rfl

theorem Slot.refuses_closed (current : Slot) (ticket : Nat) :
    current.refuses ⟨ticket, .closed⟩ = decide (ticket < current.ticket) := by
  unfold refuses
  cases current.state <;> simp

/-- Updating and closing go by one rule. -/
theorem Write.attempt_eq (write : Write) (store : Store) :
    write.attempt store =
      if (store.slot? write.uri).any (·.refuses write.slot) then (false, store)
      else (true, store.put write.uri write.slot) := by
  obtain ⟨uri, number, state⟩ := write
  cases state with
  | opened snapshot =>
      simp only [Slot.refuses_opened, attempt, Store.update]
      split
      · next h => exact (if_pos h).symm
      · next h => exact (if_neg h).symm
  | closed =>
      simp only [Slot.refuses_closed, attempt, Store.close]
      split
      · next h => exact (if_pos h).symm
      · next h => exact (if_neg h).symm

theorem Write.apply_eq (store : Store) (write : Write) :
    write.apply store =
      if (store.slot? write.uri).any (·.refuses write.slot) then store
      else store.put write.uri write.slot := by
  rw [apply, attempt_eq]
  split <;> rfl

/-! ### Slots by name -/

namespace Store

theorem lookup_cons_eq_ite (name key : String) (slot : Slot) (slots : List (String × Slot)) :
    ((name, slot) :: slots).lookup key = if key = name then some slot else slots.lookup key := by
  rw [List.lookup_cons]
  by_cases h : key = name <;> simp [h, beq_eq_false_iff_ne.mpr]

theorem lookup_putSlot (uri key : String) (slot : Slot) (slots : List (String × Slot)) :
    (putSlot uri slot slots).lookup key =
      if key = uri then some slot else slots.lookup key := by
  induction slots with
  | nil => rw [putSlot, lookup_cons_eq_ite]
  | cons entry rest ih =>
      obtain ⟨name, current⟩ := entry
      unfold putSlot
      by_cases hname : name = uri
      · subst hname
        rw [if_pos rfl, lookup_cons_eq_ite, lookup_cons_eq_ite]
        split <;> rfl
      · rw [if_neg hname, lookup_cons_eq_ite, lookup_cons_eq_ite, ih]
        by_cases hkey : key = name
        · rw [if_pos hkey, if_pos hkey, if_neg fun h => hname (hkey.symm.trans h)]
        · rw [if_neg hkey, if_neg hkey]

theorem slot?_put (store : Store) (uri key : String) (slot : Slot) :
    (store.put uri slot).slot? key = if key = uri then some slot else store.slot? key :=
  lookup_putSlot uri key slot store.slots

/-- The names that have a slot. -/
def names (store : Store) : List String := store.slots.map Prod.fst

theorem mem_names {store : Store} {uri : String} :
    uri ∈ store.names ↔ (store.slot? uri).isSome = true := by
  unfold names slot?
  induction store.slots with
  | nil => simp
  | cons entry rest ih =>
      rw [List.map_cons, List.mem_cons, ih, lookup_cons_eq_ite]
      by_cases h : uri = entry.1 <;> simp [h]

theorem mem_map_putSlot {uri key : String} {slot : Slot} {slots : List (String × Slot)}
    (h : key ∈ (putSlot uri slot slots).map Prod.fst) : key = uri ∨ key ∈ slots.map Prod.fst := by
  induction slots with
  | nil => simpa [putSlot] using h
  | cons entry rest ih =>
      unfold putSlot at h
      split at h
      · next hname => simpa [hname] using h
      · rcases List.mem_cons.mp h with rfl | h
        · exact Or.inr List.mem_cons_self
        · exact (ih h).imp_right (List.mem_cons_of_mem _)

theorem nodup_putSlot {slots : List (String × Slot)} (h : (slots.map Prod.fst).Nodup)
    (uri : String) (slot : Slot) : ((putSlot uri slot slots).map Prod.fst).Nodup := by
  induction slots with
  | nil => simp [putSlot]
  | cons entry rest ih =>
      obtain ⟨hnot, hrest⟩ := List.nodup_cons.mp h
      unfold putSlot
      split
      · next hname =>
          rw [List.map_cons, ← hname]
          exact h
      · next hname =>
          refine List.nodup_cons.mpr ⟨fun hmem => ?_, ih hrest⟩
          rcases mem_map_putSlot hmem with heq | hmem
          · exact hname heq
          · exact hnot hmem

theorem lookup_of_mem {slots : List (String × Slot)} (h : (slots.map Prod.fst).Nodup)
    {entry : String × Slot} (hentry : entry ∈ slots) : slots.lookup entry.1 = some entry.2 := by
  induction slots with
  | nil => cases hentry
  | cons first rest ih =>
      obtain ⟨hnot, hrest⟩ := List.nodup_cons.mp h
      rw [lookup_cons_eq_ite]
      rcases List.mem_cons.mp hentry with rfl | hentry
      · rw [if_pos rfl]
      · have hne : entry.1 ≠ first.1 := fun heq => hnot (heq ▸ List.mem_map_of_mem hentry)
        rw [if_neg hne, ih hrest hentry]

/-- Open documents are counted by name. -/
theorem openCount_eq {store : Store} (h : store.names.Nodup) :
    store.openCount = store.names.countP fun uri => (store.get? uri).isSome := by
  rw [openCount, names, List.countP_map]
  refine List.countP_congr fun entry hentry => ?_
  have hslot : store.slot? entry.1 = some entry.2 := lookup_of_mem h hentry
  simp [get?, hslot]

end Store

/-! ### The greatest ticket -/

namespace Write

theorem last?_mem {writes : List Write} {uri : String} {write : Write}
    (h : last? writes uri = some write) : write ∈ writes ∧ write.uri = uri := by
  have hmem := List.argmax_mem h
  rw [List.mem_filter, decide_eq_true_eq] at hmem
  exact hmem

theorem last?_append_of_ne (done : List Write) {write : Write} {uri : String}
    (h : write.uri ≠ uri) : last? (done ++ [write]) uri = last? done uri := by
  simp [last?, h]

/-- One more write takes over, unless a greater ticket has been there. -/
theorem last?_append_self {done : List Write} {write : Write}
    (h : ∀ w ∈ done, w.ticket ≠ write.ticket) :
    last? (done ++ [write]) write.uri =
      if (last? done write.uri).any fun current => write.ticket < current.ticket then
        last? done write.uri
      else some write := by
  have hsingle : ([write].filter fun w => decide (w.uri = write.uri)) = [write] := by simp
  rw [last?, List.filter_append, hsingle, List.argmax_concat, ← last?]
  cases hlast : last? done write.uri with
  | none => rfl
  | some current =>
      have hne := h current (last?_mem hlast).1
      by_cases hless : write.ticket < current.ticket
      · have hnot : ¬ current.ticket < write.ticket := by omega
        simp [hless, hnot]
      · have hgreater : current.ticket < write.ticket := by omega
        simp [hless, hgreater]

theorem last?_eq_none_iff {writes : List Write} {uri : String} :
    last? writes uri = none ↔ uri ∉ writes.map Write.uri := by
  rw [last?, List.argmax_eq_none, List.filter_eq_nil_iff]
  simp

/-- What has the greatest ticket does not depend on the order. -/
theorem last?_perm {writes order : List Write} (hperm : order.Perm writes)
    (htickets : (writes.map ticket).Nodup) (uri : String) : last? order uri = last? writes uri := by
  cases horder : last? order uri with
  | none =>
      rw [last?_eq_none_iff, (hperm.map Write.uri).mem_iff, ← last?_eq_none_iff] at horder
      exact horder.symm
  | some a =>
      cases hwrites : last? writes uri with
      | none =>
          rw [last?_eq_none_iff, ← (hperm.map Write.uri).mem_iff, ← last?_eq_none_iff,
            horder] at hwrites
          cases hwrites
      | some b =>
          have ha := last?_mem horder
          have hb := last?_mem hwrites
          have hba : b.ticket ≤ a.ticket :=
            List.le_of_mem_argmax (by simpa [hb.2] using hperm.mem_iff.mpr hb.1) horder
          have hab : a.ticket ≤ b.ticket :=
            List.le_of_mem_argmax (by simpa [ha.2] using hperm.mem_iff.mp ha.1) hwrites
          have hsame := List.inj_on_of_nodup_map htickets (hperm.mem_iff.mp ha.1) hb.1
            (Nat.le_antisymm hab hba)
          rw [hsame]

end Write

/-! ### What the store reflects -/

/-- Every name has the slot of the greatest ticket among the writes applied. -/
structure Reflects (store : Store) (done : List Write) : Prop where
  names_nodup : store.names.Nodup
  slot?_eq : ∀ uri, store.slot? uri = (Write.last? done uri).map Write.slot

/-- Where versions ascend with tickets, only a greater ticket refuses. -/
theorem Slot.refuses_eq {current next : Slot}
    (h : current.ticket < next.ticket → ∀ s t, current.state = .opened s → next.state = .opened t →
      s.version ≤ t.version) (hne : current.ticket ≠ next.ticket) :
    current.refuses next = decide (next.ticket < current.ticket) := by
  by_cases hticket : next.ticket < current.ticket
  · simp [refuses, hticket]
  · have hlt : current.ticket < next.ticket := by omega
    unfold refuses
    cases hcurrent : current.state with
    | closed => simp
    | opened s =>
        cases hnext : next.state with
        | closed => simp
        | opened t =>
            have hversion : s.document.version ≤ t.document.version := h hlt s t hcurrent hnext
            simp [hticket, Document.supersedes, hversion]

/-- One more write. -/
theorem Reflects.apply {store : Store} {done : List Write} {write : Write}
    (h : Reflects store done) (htickets : ∀ w ∈ done, w.ticket ≠ write.ticket)
    (hversions : Write.VersionsAscend (done ++ [write])) :
    Reflects (write.apply store) (done ++ [write]) := by
  -- the slot of the name that is written decides
  have hrefuses : (store.slot? write.uri).any (·.refuses write.slot) =
      (Write.last? done write.uri).any fun current => decide (write.ticket < current.ticket) := by
    rw [h.slot?_eq, Option.any_map]
    cases hlast : Write.last? done write.uri with
    | none => rfl
    | some current =>
        obtain ⟨hmem, huri⟩ := Write.last?_mem hlast
        refine Slot.refuses_eq ?_ (htickets current hmem)
        exact hversions current (List.mem_append_left _ hmem) write
          (List.mem_append_right _ List.mem_cons_self) huri
  -- the same test decides who has the greatest ticket now
  have hself := Write.last?_append_self htickets
  rw [Write.apply_eq, hrefuses]
  split
  · next hrefused =>
      rw [if_pos hrefused] at hself
      refine ⟨h.names_nodup, fun uri => ?_⟩
      by_cases huri : write.uri = uri
      · rw [← huri, hself, h.slot?_eq]
      · rw [Write.last?_append_of_ne done huri, h.slot?_eq]
  · next haccepted =>
      rw [if_neg haccepted] at hself
      refine ⟨Store.nodup_putSlot h.names_nodup _ _, fun uri => ?_⟩
      rw [Store.slot?_put]
      by_cases huri : write.uri = uri
      · rw [if_pos huri.symm, ← huri, hself]
        rfl
      · rw [if_neg (Ne.symm huri), Write.last?_append_of_ne done huri, h.slot?_eq]

/-- All writes, in any order. -/
theorem reflects_applyAll {order : List Write} (htickets : (order.map Write.ticket).Nodup)
    (hversions : Write.VersionsAscend order) : Reflects (Write.applyAll order) order := by
  induction order using List.reverseRecOn with
  | nil => exact ⟨List.nodup_nil, fun _ => rfl⟩
  | append_singleton done write ih =>
      rw [List.map_append, List.map_singleton, List.nodup_append] at htickets
      obtain ⟨hdone, -, hapart⟩ := htickets
      have hascend : Write.VersionsAscend done := fun a ha b hb =>
        hversions a (List.mem_append_left _ ha) b (List.mem_append_left _ hb)
      have hstep := (ih hdone hascend).apply
        (fun w hw => hapart _ (List.mem_map_of_mem hw) _ List.mem_cons_self) hversions
      rwa [Write.applyAll, List.foldl_append]

theorem Reflects.get?_eq {store : Store} {writes : List Write} (h : Reflects store writes)
    (uri : String) :
    store.get? uri = (Write.last? writes uri).bind fun write => write.slot.state.snapshot? := by
  rw [Store.get?, h.slot?_eq, Option.bind_map]
  rfl

theorem Reflects.names_perm {store : Store} {writes : List Write} (h : Reflects store writes) :
    store.names.Perm (writes.map Write.uri).dedup := by
  refine (List.perm_ext_iff_of_nodup h.names_nodup (List.nodup_dedup _)).mpr fun uri => ?_
  rw [Store.mem_names, h.slot?_eq, Option.isSome_map, List.mem_dedup, Option.isSome_iff_ne_none,
    ne_eq, Write.last?_eq_none_iff, not_not]

/-- **The last arrival wins.** Whatever the order in which writes are applied, every document ends
as its write with the greatest ticket left it, and the open documents are those whose last write was
an update. -/
theorem last_arrival_wins (writes order : List Write) (hperm : order.Perm writes)
    (htickets : (writes.map Write.ticket).Nodup) (hversions : Write.VersionsAscend writes) :
    let store := Write.applyAll order
    let last (uri : String) := Write.last? writes uri
    (∀ uri, store.slot? uri = (last uri).map Write.slot ∧
        store.get? uri = (last uri).bind fun write => write.slot.state.snapshot?) ∧
      store.openCount = (writes.map Write.uri).dedup.countP fun uri =>
        ((last uri).bind fun write => write.slot.state.snapshot?).isSome := by
  intro store last
  have horder : Write.VersionsAscend order := fun a ha b hb =>
    hversions a (hperm.mem_iff.mp ha) b (hperm.mem_iff.mp hb)
  have happlied : Reflects store order :=
    reflects_applyAll ((hperm.map Write.ticket).nodup_iff.mpr htickets) horder
  have hreflects : Reflects store writes :=
    ⟨happlied.names_nodup, fun uri => by
      rw [happlied.slot?_eq, Write.last?_perm hperm htickets]⟩
  refine ⟨fun uri => ⟨hreflects.slot?_eq uri, hreflects.get?_eq uri⟩, ?_⟩
  rw [Store.openCount_eq hreflects.names_nodup, hreflects.names_perm.countP_eq]
  simp only [hreflects.get?_eq]
  rfl

/-- Applied in reverse, a close comes before the updates that arrived before it, and stays. -/
theorem last_arrival_wins_reversed :
    let snapshot (uri : String) (version : Int) : Snapshot :=
      ⟨⟨uri, version, ""⟩, .standard, none, []⟩
    let writes : List Write :=
      [⟨"a", 0, .opened (snapshot "a" 1)⟩, ⟨"a", 1, .opened (snapshot "a" 2)⟩,
        ⟨"b", 2, .opened (snapshot "b" 1)⟩, ⟨"a", 3, .closed⟩]
    let store := Write.applyAll writes.reverse
    writes.reverse.Perm writes ∧ (writes.map Write.ticket).Nodup ∧ Write.VersionsAscend writes ∧
      store.get? "a" = none ∧ store.get? "b" = some (snapshot "b" 1) ∧ store.openCount = 1 := by
  intro snapshot writes store
  have hversions : Write.VersionsAscend writes := by
    simp [Write.VersionsAscend, writes, Write.ticket, snapshot, Snapshot.version]
  obtain ⟨hslots, hcount⟩ := last_arrival_wins writes writes.reverse writes.reverse_perm
    (by decide) hversions
  refine ⟨writes.reverse_perm, by decide, hversions, ?_, ?_, ?_⟩
  · exact (hslots "a").2
  · exact (hslots "b").2
  · exact hcount

end RecipeDesk

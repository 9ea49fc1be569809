import RecipeDesk.Document.Basic

/-!
# The store of open documents

Messages about documents may be worked off in another order than they arrived in. Each write
therefore carries a ticket that was drawn when its message arrived, and the store keeps for every
document the ticket of the write applied last. A write with an older ticket is dropped. A closed
document keeps its slot and its ticket, so that a late update cannot reopen it; and while a document
is open, its version never goes back.

Tickets are counted without a bound, so a later ticket is always a greater one. A counter of 64 bits
tells tickets apart in the same way until `2 ^ 64` of them have been drawn; from then on it would
begin again at zero, which this store does not do.

Diagnostics go out only under the ticket that the document's slot still has.
-/

namespace RecipeDesk

/-- What the last write made of a document. -/
inductive SlotState where
  /-- Open, with this content. -/
  | opened (snapshot : Snapshot)
  /-- Closed. -/
  | closed
deriving DecidableEq, Repr, Inhabited

/-- The snapshot of an open document. -/
def SlotState.snapshot? : SlotState → Option Snapshot
  | opened snapshot => some snapshot
  | closed => none

/-- The last write to a document. -/
structure Slot where
  /-- The ticket it carried. -/
  ticket : Nat
  /-- What it made of the document. -/
  state : SlotState
deriving DecidableEq, Repr, Inhabited

/-- Whether a slot refuses an update: it has a later ticket, or is open on a later version. -/
def Slot.refusesUpdate (slot : Slot) (ticket : Nat) (snapshot : Snapshot) : Bool :=
  ticket < slot.ticket ||
    match slot.state with
    | .opened current => !snapshot.document.supersedes current.document
    | .closed => false

/-- The documents by name, and the next ticket. -/
structure Store where
  /-- One slot a name. -/
  slots : List (String × Slot)
  /-- The next ticket to be drawn. -/
  nextTicket : Nat
deriving DecidableEq, Repr, Inhabited

namespace Store

/-- A store that has seen no document. -/
def empty : Store := ⟨[], 0⟩

/-- Draw a ticket. -/
def drawTicket (store : Store) : Nat × Store :=
  (store.nextTicket, { store with nextTicket := store.nextTicket + 1 })

/-- The slot of a name. -/
def slot? (store : Store) (uri : String) : Option Slot := store.slots.lookup uri

/-- Replace the slot of a name, or add it behind the others. -/
def putSlot (uri : String) (slot : Slot) : List (String × Slot) → List (String × Slot)
  | [] => [(uri, slot)]
  | entry :: rest =>
    if entry.1 = uri then (uri, slot) :: rest else entry :: putSlot uri slot rest

/-- Set the slot of a name. -/
def put (store : Store) (uri : String) (slot : Slot) : Store :=
  { store with slots := putSlot uri slot store.slots }

/-- Store a snapshot, unless the slot refuses it. Tells whether it was stored. -/
def update (store : Store) (uri : String) (ticket : Nat) (snapshot : Snapshot) : Bool × Store :=
  if (store.slot? uri).any (·.refusesUpdate ticket snapshot) then (false, store)
  else (true, store.put uri ⟨ticket, .opened snapshot⟩)

/-- Close a document, unless a later write was applied already. Tells whether it was closed. -/
def close (store : Store) (uri : String) (ticket : Nat) : Bool × Store :=
  if (store.slot? uri).any fun slot => ticket < slot.ticket then (false, store)
  else (true, store.put uri ⟨ticket, .closed⟩)

/-- Whether the write with this ticket is still the last one, so that it may be published. -/
def isLatest (store : Store) (uri : String) (ticket : Nat) : Bool :=
  (store.slot? uri).any fun slot => slot.ticket == ticket

/-- The snapshot of an open document. -/
def get? (store : Store) (uri : String) : Option Snapshot :=
  (store.slot? uri).bind fun slot => slot.state.snapshot?

/-- Number of open documents. -/
def openCount (store : Store) : Nat :=
  store.slots.countP fun entry => entry.2.state.snapshot?.isSome

end Store

end RecipeDesk

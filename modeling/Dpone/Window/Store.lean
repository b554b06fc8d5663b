import Mathlib.Data.List.Lemmas
import Mathlib.Order.Defs.LinearOrder
import Dpone.Schemes.Run
import Dpone.Schemes.Text

/-! The SQLite window store: leases with fences, and records with revisions.

    Every operation is one transaction over two tables. A lease row is never deleted: its fence
    counts the grants of its target, and a release only ends its time. A record is written against
    the revision its writer names, inside the transaction that checks the writer's lease. -/

namespace Dpone.Window
open Dpone.Schemes

/-- `WindowLeaseLost` is a `WindowContractError`; the executor tells them apart. -/
inductive StoreError where
  | contract (text : String)
  | leaseLost (text : String)
  deriving DecidableEq, Repr

/-- A row of `window_leases`. -/
structure LeaseRow (T : Type) where
  owner : Str
  fence : ℕ
  expires : T
  deriving DecidableEq

/-- Target-scoped exclusive writer epoch. -/
structure WindowLease where
  targetId : Str
  owner : Str
  fence : ℕ
  deriving DecidableEq

/-- A row of `window_records`. -/
structure WindowRecord where
  revision : ℕ
  payload : Str
  deriving DecidableEq

/-- The two tables, by their primary keys. -/
structure SQLiteWindowStore (T : Type) where
  leases : Str → Option (LeaseRow T)
  records : Str → Option WindowRecord

/-- The store of a new file. -/
def SQLiteWindowStore.empty {T : Type} : SQLiteWindowStore T := ⟨fun _ => none, fun _ => none⟩

variable {T : Type} [LinearOrder T] [Zero T]

namespace SQLiteWindowStore

def setLease (db : SQLiteWindowStore T) (target : Str) (row : LeaseRow T) : SQLiteWindowStore T :=
  { db with leases := fun t => if t = target then some row else db.leases t }

def setRecord (db : SQLiteWindowStore T) (key : Str) (record : WindowRecord) :
    SQLiteWindowStore T :=
  { db with records := fun k => if k = key then some record else db.records k }

end SQLiteWindowStore

/-- Python floats other than NaN: how they add up, and which are finite. -/
structure FloatSum (T : Type) where
  plus : T → T → T
  finite : T → Bool

/-! ### Operations -/

namespace SQLiteWindowStore
variable (float : FloatSum T) (db : SQLiteWindowStore T)

/-- `_ttl`. -/
def checkTtl (ttl : T) : Except StoreError Unit :=
  if float.finite ttl = false ∨ ttl ≤ 0 then
    .error (.contract "Lease TTL must be finite and positive")
  else .ok ()

/-- `acquire`, the clock read once inside the transaction. -/
def acquire (now : T) (targetId owner : Str) (ttl : T) :
    Except StoreError (WindowLease × SQLiteWindowStore T) := do
  checkTtl float ttl
  if targetId = [] ∨ owner = [] then
    .error (.contract "Lease target and owner must be nonempty")
  else
    let granted (fence : ℕ) : WindowLease × SQLiteWindowStore T :=
      (⟨targetId, owner, fence⟩, db.setLease targetId ⟨owner, fence, float.plus now ttl⟩)
    match db.leases targetId with
    | some row =>
      if now < row.expires then .error (.leaseLost "Target has an active writer lease")
      else .ok (granted (row.fence + 1))
    | none => .ok (granted 1)

/-- `_assert`. -/
def assertLease (now : T) (lease : WindowLease) : Except StoreError Unit :=
  let lost := StoreError.leaseLost "Writer lease expired or fencing token changed"
  match db.leases lease.targetId with
  | none => .error lost
  | some row =>
    if row.owner ≠ lease.owner ∨ row.fence ≠ lease.fence ∨ row.expires ≤ now then .error lost
    else .ok ()

/-- `renew`: the lease is checked at one reading of the clock and extended from a second. -/
def renew (now now' : T) (lease : WindowLease) (ttl : T) :
    Except StoreError (SQLiteWindowStore T) := do
  checkTtl float ttl
  assertLease db now lease
  match db.leases lease.targetId with
  | some row =>
    return db.setLease lease.targetId { row with expires := float.plus now' ttl }
  | none => return db

/-- `release`: the epoch stays, its time ends. -/
def release (lease : WindowLease) : SQLiteWindowStore T :=
  match db.leases lease.targetId with
  | some row =>
    if row.owner = lease.owner ∧ row.fence = lease.fence then
      db.setLease lease.targetId { row with expires := 0 }
    else db
  | none => db

/-- `save`. -/
def save (now : T) (key : Str) (expected : Option ℕ) (payload : Str) (lease : WindowLease) :
    Except StoreError (WindowRecord × SQLiteWindowStore T) := do
  assertLease db now lease
  if (db.records key).map (·.revision) ≠ expected then
    .error (.contract "Checkpoint compare-and-swap conflict")
  else
    let record : WindowRecord := ⟨expected.elim 1 (· + 1), payload⟩
    return (record, db.setRecord key record)

end SQLiteWindowStore

/-! ### Any number of owners -/

/-- A call on the store; `load` and `assert_lease` write nothing. -/
inductive StoreCall (T : Type) where
  | acquire (targetId owner : Str) (ttl : T)
  | assertLease (lease : WindowLease)
  | renew (lease : WindowLease) (ttl : T)
  | release (lease : WindowLease)
  | load (key : Str)
  | save (key : Str) (expected : Option ℕ) (payload : Str) (lease : WindowLease)

/-- What a call came back with. -/
inductive StoreReply where
  | granted (lease : WindowLease)
  | done
  | loaded (record : Option WindowRecord)
  | saved (record : WindowRecord)
  | failed (error : StoreError)
  deriving DecidableEq

variable (float : FloatSum T)

/-- One transaction at two readings of the clock; one that raises is rolled back. -/
def SQLiteWindowStore.serve (db : SQLiteWindowStore T) (now now' : T) : StoreCall T → StoreReply × SQLiteWindowStore T
  | .acquire targetId owner ttl =>
    match db.acquire float now targetId owner ttl with
    | .ok (lease, db') => (.granted lease, db')
    | .error e => (.failed e, db)
  | .assertLease lease =>
    match db.assertLease now lease with
    | .ok () => (.done, db)
    | .error e => (.failed e, db)
  | .renew lease ttl =>
    match db.renew float now now' lease ttl with
    | .ok db' => (.done, db')
    | .error e => (.failed e, db)
  | .release lease => (.done, db.release lease)
  | .load key => (.loaded (db.records key), db)
  | .save key expected payload lease =>
    match db.save now key expected payload lease with
    | .ok (record, db') => (.saved record, db')
    | .error e => (.failed e, db)

/-- The store, the latest reading of the clock, and every call with its reply, newest first. -/
structure StoreWorld (T : Type) where
  store : SQLiteWindowStore T
  clock : T
  log : List (StoreCall T × StoreReply)

def StoreWorld.start (clock : T) : StoreWorld T := ⟨.empty, clock, []⟩

/-- Time passes, or some owner calls; the clock never goes back. -/
inductive StoreStep : StoreWorld T → Unit → StoreWorld T → Prop
  | tick {w : StoreWorld T} {now : T} (h : w.clock ≤ now) : StoreStep w () { w with clock := now }
  | call {w : StoreWorld T} {now now' : T} (c : StoreCall T) (h : w.clock ≤ now) (h' : now ≤ now') :
      StoreStep w () ⟨(w.store.serve float now now' c).2, now',
        (c, (w.store.serve float now now' c).1) :: w.log⟩

end Dpone.Window

import Buzz.Audit.Hash
import Buzz.Lib.HashChain

namespace Buzz.Audit
set_option autoImplicit true
open Json

inductive AuditError where
  | database
  | chainViolation (seq : Int64)
  | hashMismatch (seq : Int64)
  | unknownAction
deriving DecidableEq

/-- A row of `audit_log`. Its timestamp has the precision of the column. -/
structure Row (F : Type) where
  communityId : Uuid
  seq : Int64
  hash : List UInt8
  prevHash : Option (List UInt8)
  action : String
  actorPubkey : Option (List UInt8)
  objectId : Option String
  detail : Value F
  createdAt : DateTime
  createdAt_stored : toStoragePrecision createdAt = createdAt

/-- The table with its primary key and its unique index on hashes. -/
structure AuditLog (F : Type) where
  rows : List (Row F)
  primaryKey : (rows.map fun r => (r.communityId, r.seq)).Nodup
  uniqueHash : (rows.map fun r => (r.communityId, r.hash)).Nodup

structure NewAuditEntry (F : Type) where
  communityId : Uuid
  action : AuditAction
  actorPubkey : Option (List UInt8)
  objectId : Option String
  detail : Value F

/-- How a call of `logInner` fails. An addition that overflows panics. -/
inductive LogFailure where
  | error (e : AuditError)
  | panic
deriving DecidableEq

theorem toStoragePrecision_idem (t : DateTime) :
    toStoragePrecision (toStoragePrecision t) = toStoragePrecision t := by
  have hzero : (t.nanosecond - t.nanosecond % 10 ^ (9 - 6)) % 10 ^ (9 - 6) = 0 :=
    Nat.sub_mod_eq_zero_of_mod_eq (Nat.mod_mod _ _).symm
  simp only [toStoragePrecision, DateTime.truncSubsecs, DateTime.mk.injEq, true_and]
  rw [hzero, Nat.sub_zero]

variable {F : Type}

namespace AuditLog

def empty : AuditLog F :=
  ⟨[], List.nodup_nil, List.nodup_nil⟩

def ofCommunity (db : AuditLog F) (community : Uuid) : List (Row F) :=
  db.rows.filter fun r => r.communityId = community

theorem nodup_snoc {f : α → β} {as : List α} (h : (as.map f).Nodup) (hnew : ∀ b ∈ as, f b ≠ f a) :
    ((as ++ [a]).map f).Nodup := by
  rw [List.map_append, List.nodup_append]
  refine ⟨h, List.nodup_singleton _, ?_⟩
  intro x hx y hy
  obtain ⟨b, hb, rfl⟩ := List.mem_map.mp hx
  obtain rfl : y = f a := List.mem_singleton.mp hy
  exact hnew b hb

def insert (db : AuditLog F) (row : Row F) : Option (AuditLog F) :=
  if h : ∀ r ∈ db.rows, r.communityId = row.communityId → r.seq ≠ row.seq ∧ r.hash ≠ row.hash then
    some
      { rows := db.rows ++ [row]
        primaryKey := nodup_snoc db.primaryKey fun r hr he =>
          (h r hr (congrArg Prod.fst he)).1 (congrArg Prod.snd he)
        uniqueHash := nodup_snoc db.uniqueHash fun r hr he =>
          (h r hr (congrArg Prod.fst he)).2 (congrArg Prod.snd he) }
  else none

end AuditLog

/-- The row that an entry is bound to. -/
def AuditEntry.toRow (e : AuditEntry F) : Row F where
  communityId := e.communityId
  seq := e.seq
  hash := e.hash
  prevHash := e.prevHash
  action := e.action.asStr
  actorPubkey := e.actorPubkey
  objectId := e.objectId
  detail := e.detail
  createdAt := toStoragePrecision e.createdAt
  createdAt_stored := toStoragePrecision_idem e.createdAt

def rowToAuditEntry (row : Row F) : Except AuditError (AuditEntry F) :=
  match AuditAction.fromStr row.action with
  | none => .error .unknownAction
  | some action =>
    .ok
      { communityId := row.communityId
        seq := row.seq
        hash := row.hash
        prevHash := row.prevHash
        action := action
        actorPubkey := row.actorPubkey
        objectId := row.objectId
        detail := row.detail
        createdAt := row.createdAt }

def nextSeq (seq : Int64) : Option Int64 :=
  if seq = Int64.maxValue then none else some (seq + 1)

/-- The row of a community with the highest `seq`. -/
def AuditLog.head (db : AuditLog F) (community : Uuid) : Option (Row F) :=
  ((db.ofCommunity community).insertionSort fun r s => s.seq.toInt ≤ r.seq.toInt).head?

variable (fmt : FloatFormat F) (sha256 : ByteArray → HexId 64)

def logInner (db : AuditLog F) (entry : NewAuditEntry F) (now : DateTime) :
    Except LogFailure (AuditEntry F × AuditLog F) :=
  let head := db.head entry.communityId
  let prevSeq := head.elim 0 Row.seq
  let prevHash := head.map Row.hash
  match nextSeq prevSeq with
  | none => .error .panic
  | some seq =>
    let auditEntry : AuditEntry F :=
      { communityId := entry.communityId
        seq := seq
        hash := []
        prevHash := prevHash
        action := entry.action
        actorPubkey := entry.actorPubkey
        objectId := entry.objectId
        detail := entry.detail
        createdAt := toStoragePrecision now }
    let auditEntry := { auditEntry with hash := computeHash fmt sha256 auditEntry }
    match db.insert auditEntry.toRow with
    | none => .error (.error .database)
    | some db => .ok (auditEntry, db)

/-- The rows of one community with `seq` between two bounds, in the order of `seq`. -/
def AuditLog.between (db : AuditLog F) (community : Uuid) (fromSeq toSeq : Int64) : List (Row F) :=
  ((db.ofCommunity community).filter fun r =>
    fromSeq.toInt ≤ r.seq.toInt ∧ r.seq.toInt ≤ toSeq.toInt).insertionSort
      fun r s => r.seq.toInt ≤ s.seq.toInt

def verifyRows : Option (List UInt8) → List (Row F) → Except AuditError Bool
  | _, [] => .ok true
  | expectedPrev, row :: rows =>
    match rowToAuditEntry row with
    | .error e => .error e
    | .ok entry =>
      if expectedPrev.any fun expected => entry.prevHash != some expected then
        .error (.chainViolation entry.seq)
      else if computeHash fmt sha256 entry ≠ entry.hash then .error (.hashMismatch entry.seq)
      else verifyRows (some entry.hash) rows

def verifyChain (db : AuditLog F) (community : Uuid) (fromSeq toSeq : Int64) :
    Except AuditError Bool :=
  let rows := db.between community fromSeq toSeq
  if rows.isEmpty then .ok false else verifyRows fmt sha256 none rows

/-- One call of `log`. A failed call rolls its transaction back. -/
def log (db : AuditLog F) (call : NewAuditEntry F × DateTime) : AuditLog F :=
  match logInner fmt sha256 db call.1 call.2 with
  | .ok (_, db') => db'
  | .error _ => db

/-- Calls for any communities, in the order in which they hold their locks. -/
def logAll (calls : List (NewAuditEntry F × DateTime)) : AuditLog F :=
  calls.foldl (log fmt sha256) .empty

end Buzz.Audit

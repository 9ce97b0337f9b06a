import Synchrony.KeyMap.Lookup
import Synchrony.Record

/-!
# The action log

The log numbers records in the order in which they are appended, over all bursts together. It keeps
the records of each burst until the burst is closed, and of all records the most recent ones.
-/

namespace Synchrony

/-- A record before the log numbers it. -/
structure NewRecord where
  burst : String
  depth : UInt32
  action : ActionRef
  input : Fields
  output : Fields
  syncedBy : Option String
  time : Timestamp

/-- The record with its number. -/
def NewRecord.number (r : NewRecord) (seq : Nat) : Record :=
  ⟨seq, r.burst, r.depth, r.action, r.input, r.output, r.syncedBy, r.time⟩

/--
The log: how many records were appended, the records of each burst that is not closed, and the
most recent records (both the latest first), of which no more than `capacity` are kept.
-/
structure Log where
  capacity : Nat
  appended : Nat := 0
  active : KeyMap (List Record) := .empty
  recentFirst : List Record := []

namespace Log

/-- Appends a record, which gets the next number. -/
def append (log : Log) (new : NewRecord) : Record × Log :=
  let record := new.number (log.appended + 1)
  let earlier := (log.active.get? new.burst).getD []
  (record,
    { log with
      appended := log.appended + 1
      active := log.active.insert new.burst (record :: earlier)
      recentFirst := (record :: log.recentFirst).take log.capacity })

/-- The records of a burst that is not closed, in the order they were appended. -/
def burstRecords (log : Log) (burst : String) : List Record :=
  ((log.active.get? burst).getD []).reverse

/-- Forgets a burst and gives its records. -/
def closeBurst (log : Log) (burst : String) : List Record × Log :=
  (log.burstRecords burst, { log with active := log.active.erase burst })

@[simp] theorem burstRecords_append_self (log : Log) (new : NewRecord) :
    (log.append new).2.burstRecords new.burst = log.burstRecords new.burst ++ [(log.append new).1] := by
  simp [append, burstRecords]

theorem burstRecords_append_of_ne (log : Log) {new : NewRecord} {burst : String}
    (h : burst ≠ new.burst) :
    (log.append new).2.burstRecords burst = log.burstRecords burst := by
  simp [append, burstRecords, KeyMap.get?_insert_of_ne _ _ h]

@[simp] theorem burstRecords_closeBurst_self (log : Log) (burst : String) :
    (log.closeBurst burst).2.burstRecords burst = [] := by
  simp [closeBurst, burstRecords]

theorem burstRecords_closeBurst_of_ne (log : Log) {burst other : String} (h : other ≠ burst) :
    (log.closeBurst burst).2.burstRecords other = log.burstRecords other := by
  simp [closeBurst, burstRecords, KeyMap.get?_erase, h]

/-- The latest records over all bursts, the latest first. -/
def recent (log : Log) (limit : Nat) : List Record := log.recentFirst.take limit

/-- How many bursts have records and are not closed. -/
def activeBursts (log : Log) : Nat := log.active.size

end Log

end Synchrony

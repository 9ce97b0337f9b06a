import Mathlib.Data.List.DropRight
import Synchrony.KeyMap.Keys
import Synchrony.Log

/-!
# The log as a list of events

What a log has been through is a list of events: a record was appended, or a burst was closed
(`Log.Op.history`). The number of records, the records of each burst and the latest records are three
views of this list, however appending to bursts, closing them and evicting old records are mixed
(`Log.Shows.run`), and the answers of the log say nothing else (`Log.views_of_history`).
-/

namespace Synchrony.Log

variable {log : Log} {new : NewRecord} {burst id : String}

/-! ### What an operation changes -/

@[simp] lemma burst_append : (log.append new).1.burst = new.burst := rfl

lemma recentFirst_append : (log.append new).2.recentFirst =
    ((log.append new).1 :: log.recentFirst).take log.capacity := rfl

lemma contains_append : (log.append new).2.active.contains id = true ↔
    id = new.burst ∨ log.active.contains id = true :=
  KeyMap.contains_insert_iff ..

lemma contains_closeBurst : (log.closeBurst burst).2.active.contains id = true ↔
    id ≠ burst ∧ log.active.contains id = true :=
  KeyMap.contains_erase_iff ..

/-- Of what is kept with one more record, all but the oldest was kept before. -/
lemma take_cons_take {α : Type} (a : α) (l : List α) (n : Nat) :
    (a :: l.take n).take n = (a :: l).take n := by
  cases n with
  | zero => rfl
  | succ n =>
    rw [List.take_succ_cons, List.take_succ_cons, List.take_take, Nat.min_eq_left n.le_succ]

/-! ### Events -/

/-- Something that happened to a log. -/
inductive Event where
  | appended (record : Record)
  | closed (burst : String)

namespace Event

/-- The record that was appended. -/
def record? : Event → Option Record
  | appended record => some record
  | closed _ => none

/-- Whether the burst was closed. -/
def closes (burst : String) : Event → Bool
  | appended _ => false
  | closed b => b = burst

end Event

/-- The records that were appended, in this order. -/
def records (events : List Event) : List Record := events.filterMap Event.record?

/-- The records of a burst that were appended since it was last closed, in this order. -/
def since (burst : String) (events : List Event) : List Record :=
  (records (events.rtakeWhile (!·.closes burst))).filter (·.burst = burst)

variable {events : List Event} {record : Record}

@[simp] lemma records_nil : records [] = [] := rfl

@[simp] lemma records_appended :
    records (events ++ [.appended record]) = records events ++ [record] := by
  simp [records, Event.record?]

@[simp] lemma records_closed : records (events ++ [.closed id]) = records events := by
  simp [records, Event.record?]

@[simp] lemma since_nil : since burst [] = [] := by
  simp [since]

lemma since_appended : since burst (events ++ [.appended record]) =
    since burst events ++ if record.burst = burst then [record] else [] := by
  rw [since, List.rtakeWhile_concat_pos _ _ _ (by rfl), records_appended, List.filter_append,
    ← since]
  split_ifs with hburst <;> simp [hburst]

lemma since_closed :
    since burst (events ++ [.closed id]) = if id = burst then [] else since burst events := by
  split_ifs with hid
  · rw [since, List.rtakeWhile_concat_neg _ _ _ (by simp [Event.closes, hid])]
    rfl
  · rw [since, List.rtakeWhile_concat_pos _ _ _ (by simp [Event.closes, hid]), records_closed,
      since]

/-! ### Operations -/

/-- What is done to a log, or asked of it. -/
inductive Op where
  | append (new : NewRecord)
  | close (burst : String)
  | records (burst : String)
  | recent (limit : Nat)

namespace Op

/-- The log after an operation. -/
def perform (log : Log) : Op → Log
  | append new => (log.append new).2
  | close b => (log.closeBurst b).2
  | records _ | recent _ => log

/-- The log after operations on an empty log. -/
def run (capacity : Nat) (ops : List Op) : Log := ops.foldl perform { capacity }

/-- The new record that is appended. -/
def new? : Op → Option NewRecord
  | append new => some new
  | _ => none

/-- The events after an operation; a record gets the next number. -/
def recorded (events : List Event) : Op → List Event
  | append new => events ++ [.appended (new.number ((Log.records events).length + 1))]
  | close b => events ++ [.closed b]
  | records _ | recent _ => events

/-- The events of operations, from the start. -/
def history (ops : List Op) : List Event := ops.foldl recorded []

/-- The k-th record is the k-th one that was appended, and has the number k. -/
lemma records_history (ops : List Op) :
    Log.records (history ops) = (ops.filterMap new?).mapIdx fun k new => new.number (k + 1) := by
  induction ops using List.reverseRecOn with
  | nil => rfl
  | append_singleton ops op ih =>
    rw [history, List.foldl_append, ← history, List.foldl_cons, List.foldl_nil,
      List.filterMap_append]
    cases op <;> simp [recorded, new?, ih, List.filterMap_cons]

end Op

/-! ### The three views -/

/-- A log shows events: it counts the records, keeps for each burst those since it was last closed,
and of all records the latest. -/
structure Shows (n : Nat) (events : List Event) (log : Log) : Prop where
  capacity : log.capacity = n
  appended : log.appended = (records events).length
  active : ∀ b, log.active.contains b = true ↔ since b events ≠ []
  burstRecords : ∀ b, log.burstRecords b = since b events
  recent : log.recentFirst = (records events).reverse.take n

namespace Shows

variable {n : Nat}

lemma empty (n : Nat) : Shows n [] { capacity := n } where
  capacity := rfl
  appended := rfl
  active b := by simp [KeyMap.contains]
  burstRecords b := by simp [Log.burstRecords]
  recent := by simp

lemma append (h : Shows n events log) (new : NewRecord) :
    Shows n (events ++ [.appended (log.append new).1]) (log.append new).2 where
  capacity := h.capacity
  appended := by
    rw [records_appended, List.length_append, ← h.appended]
    rfl
  active b := by
    rw [contains_append, h.active, since_appended]
    by_cases hb : b = new.burst
    · simp [hb]
    · simp [hb, Ne.symm hb]
  burstRecords b := by
    rw [since_appended, ← h.burstRecords]
    by_cases hb : b = new.burst
    · subst hb
      rw [burstRecords_append_self, if_pos burst_append]
    · rw [burstRecords_append_of_ne _ hb, burst_append, if_neg (Ne.symm hb), List.append_nil]
  recent := by
    rw [recentFirst_append, h.capacity, h.recent, take_cons_take, records_appended,
      List.reverse_concat]

lemma close (h : Shows n events log) (burst : String) :
    Shows n (events ++ [.closed burst]) (log.closeBurst burst).2 where
  capacity := h.capacity
  appended := by
    rw [records_closed]
    exact h.appended
  active b := by
    rw [contains_closeBurst, h.active, since_closed]
    split_ifs with hb
    · simp [hb]
    · exact and_iff_right (Ne.symm hb)
  burstRecords b := by
    rw [since_closed]
    split_ifs with hb
    · rw [hb, burstRecords_closeBurst_self]
    · rw [burstRecords_closeBurst_of_ne _ (Ne.symm hb), h.burstRecords]
  recent := by
    rw [records_closed]
    exact h.recent

lemma perform (h : Shows n events log) (op : Op) :
    Shows n (op.recorded events) (op.perform log) := by
  cases op with
  | append new =>
    rw [Op.recorded, ← h.appended]
    exact h.append new
  | close b => exact h.close b
  | records b => exact h
  | recent limit => exact h

/-- The log shows the events of whatever was done to it. -/
lemma run (n : Nat) (ops : List Op) : Shows n (Op.history ops) (Op.run n ops) := by
  induction ops using List.reverseRecOn with
  | nil => exact .empty n
  | append_singleton ops op ih =>
    rw [Op.history, Op.run, List.foldl_append, List.foldl_append]
    exact ih.perform op

/-- The latest records are those at the end of all. -/
lemma recent_eq (h : Shows n events log) (limit : Nat) : log.recent limit =
    ((records events).rtake (min limit (min n (records events).length))).reverse := by
  rw [Log.recent, h.recent, List.rtake_eq_reverse_take_reverse, List.reverse_reverse,
    List.take_take, ← min_assoc, List.take_eq_take_min, List.length_reverse]

end Shows

/-- After any operations on an empty log, its answers are those of the list of events: the k-th
record that is appended gets the number k, a burst has the records that were appended for it since it
was last closed, which closing it gives and forgets, the bursts that are active are those that have
any, and the recent records are the last of all, latest first. -/
theorem views_of_history (capacity : Nat) (ops : List Op) :
    let log := Op.run capacity ops
    let events := Op.history ops
    let count := (ops.filterMap Op.new?).length
    records events = (ops.filterMap Op.new?).mapIdx (fun k new => new.number (k + 1)) ∧
      (∀ new, (log.append new).1 = new.number (count + 1)) ∧ log.appended = count ∧
      (∀ burst, log.burstRecords burst = since burst events) ∧
      (∀ burst, (log.closeBurst burst).1 = since burst events ∧
        (log.closeBurst burst).2.burstRecords burst = []) ∧
      (∃ bursts : List String, bursts.Nodup ∧ (∀ b, b ∈ bursts ↔ since b events ≠ []) ∧
        log.activeBursts = bursts.length) ∧
      ∀ limit, log.recent limit =
        ((records events).rtake (min limit (min capacity count))).reverse := by
  intro log events count
  have h : Shows capacity events log := .run capacity ops
  have hrecords : records events = _ := Op.records_history ops
  have hcount : (records events).length = count := by rw [hrecords, List.length_mapIdx]
  refine ⟨hrecords, fun new => ?_, h.appended.trans hcount, h.burstRecords,
    fun burst => ⟨h.burstRecords burst, burstRecords_closeBurst_self ..⟩,
    ⟨log.active.keys, log.active.nodup_keys, fun b => ?_, ?_⟩, fun limit => ?_⟩
  · rw [← hcount, ← h.appended]
    rfl
  · rw [KeyMap.mem_keys_iff, h.active]
  · rw [activeBursts, KeyMap.size, KeyMap.keys, List.length_map]
  · rw [h.recent_eq, hcount]

end Synchrony.Log

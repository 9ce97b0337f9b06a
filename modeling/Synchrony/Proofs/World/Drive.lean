import Synchrony.Proofs.Burst.Evaluation
import Synchrony.World

/-!
# How a world drives a burst

`World.Concludes` says of a burst whose latest record is about to be evaluated that the world drives
it to its end while the database fails as it does, and that the report and the resources then have a
property. A record that completes nothing, with nothing queued before it, concludes the burst
(`World.concludes_of_quiet`); a record whose matches are not blocked leads to the call of the first
consequence in the queue and from there on to the next record (`World.concludes_of_call`).
-/

namespace Synchrony

/-- The log keeps these records of a burst that is not closed, and numbers new ones behind them. -/
structure Log.Keeps (log : Log) (id : String) (rs : List Record) : Prop where
  records : log.burstRecords id = rs
  numbered : ∀ r ∈ rs, r.seq ≤ log.appended

/-- A new record of the burst is kept behind the others. -/
lemma Log.Keeps.append {log : Log} {rs : List Record} (new : NewRecord)
    (h : log.Keeps new.burst rs) :
    (log.append new).2.Keeps new.burst (rs ++ [(log.append new).1]) := by
  refine ⟨?_, ?_⟩
  · rw [burstRecords_append_self, h.records]
  · intro r hr
    rcases List.mem_append.1 hr with hr | hr
    · exact (h.numbered r hr).trans (Nat.le_succ _)
    · rw [List.mem_singleton.1 hr]
      exact Nat.le_refl _

/-- The record is of the call of a consequence with these arguments. -/
structure Record.Calls (r : Record) (id : String) (p : Pending) (args output : Fields) : Prop where
  burst : r.burst = id
  depth : r.depth = p.depth
  action : r.action = p.invocation.action
  input : r.input = args
  output : r.output = output

/-! ### Steps of the engine -/

namespace Engine

variable {ι : Type} {e : Engine ι} {b : Burst} {record : Record} {chain : List (List Char)}
  {found : List (Rule × Match)}

/-- What a record whose matches all fire leaves in the queue. -/
def queuedAfter (b : Burst) (record : Record) (chain : List (List Char))
    (found : List (Rule × Match)) : List Pending :=
  (found.flatMap fun x => consequencesOf x.1 x.2.binding (record.depth + 1) chain) ++ b.queue

/-- If no match is blocked, all fire and the burst goes on. -/
lemma react_of_forall (hfound : e.matchesOf record = found)
    (hfree : ∀ x ∈ found, ¬ Blocked e.limits record chain x) :
    e.react b record chain = e.advance { b with
      firings := b.firings ++ found.map (Firing.of record)
      queue := queuedAfter b record chain found } := by
  rw [react, observe, hfound, evaluate_of_forall hfree]
  rfl

/-- If nothing fires and nothing waits, the burst is over. -/
lemma react_of_quiet (hfound : e.matchesOf record = []) (hqueue : b.queue = []) :
    e.react b record chain = (.over (e.close b none).1, (e.close b none).2) := by
  rw [react_of_forall hfound (by simp), advance, queuedAfter, hqueue]
  simp [nextTurn, close]

/-- If no match is blocked and the budget lasts, the first consequence in the queue is called. -/
lemma react_of_queuedAfter {p : Pending} {rest : List Pending} {args : Fields} {handle : Handle ι}
    (hfound : e.matchesOf record = found) (hfree : ∀ x ∈ found, ¬ Blocked e.limits record chain x)
    (hqueue : queuedAfter b record chain found = p :: rest)
    (hargs : p.invocation.args.resolve p.binding = .ok args)
    (hhandle : e.registry.lookup? p.invocation.action = some handle)
    (hbudget : b.appended < e.limits.maxActions) : e.react b record chain =
      (.call { b with firings := b.firings ++ found.map (Firing.of record), queue := rest }
        p args handle, e) := by
  rw [react_of_forall hfound hfree, advance, hqueue, nextTurn, hargs, hhandle]
  simp only [Nat.not_le.2 hbudget, if_false]

end Engine

/-! ### Bursts of a world -/

namespace World

/--
The burst, whose latest record is about to be evaluated, is driven to its end while the database fails
as it does, and its report and what it leaves of the resources have the property.
-/
def Concludes (e : Engine Concept) (log : Log) (r : Resources) (b : Burst) (record : Record)
    (chain : List (List Char)) (fails : Nat → Nat → Store.Failures)
    (Q : Report → Resources → Prop) : Prop :=
  let (step, engine) := { e with log }.react b record chain
  ∃ report w, drive ⟨engine, r⟩ step fails = (.over report, w) ∧ Q report w.resources

variable {e : Engine Concept} {log : Log} {r : Resources} {b : Burst} {record : Record}
  {chain : List (List Char)} {fails : Nat → Nat → Store.Failures} {Q Q' : Report → Resources → Prop}
  {rs : List Record}

lemma Concludes.imp (h : Concludes e log r b record chain fails Q)
    (himp : ∀ report r', Q report r' → Q' report r') :
    Concludes e log r b record chain fails Q' := by
  obtain ⟨report, w, hdrive, hQ⟩ := h
  exact ⟨report, w, hdrive, himp report w.resources hQ⟩

/-- A record that completes nothing, with nothing queued before it, is the last one, and the resources
stay as they are. -/
lemma concludes_of_quiet (hkeeps : log.Keeps b.id rs) (hburst : record.burst = b.id)
    (hfound : e.rules.completedBy rs record = []) (hqueue : b.queue = [])
    (hQ : ∀ report : Report, report.root = b.root → report.records = rs →
      report.failure = none → Q report r) : Concludes e log r b record chain fails Q := by
  have hmatches : { e with log }.matchesOf record = [] := by
    rw [Engine.matchesOf, hburst, hkeeps.records, hfound]
  rw [Concludes, Engine.react_of_quiet hmatches hqueue]
  exact ⟨_, _, by rw [drive], hQ _ rfl hkeeps.records rfl⟩

/--
A record whose matches are not blocked leads to the call of the first consequence in the queue, and
its work to the next record.
-/
lemma concludes_of_call {found : List (Rule × Match)} {p : Pending} {rest : List Pending}
    {args : Fields} {handle : Handle Concept} {result : Except ConceptError Fields}
    {r' : Resources} (hkeeps : log.Keeps b.id rs) (hburst : record.burst = b.id)
    (hfound : e.rules.completedBy rs record = found)
    (hfree : ∀ x ∈ found, ¬ Blocked e.limits record chain x)
    (hqueue : Engine.queuedAfter b record chain found = p :: rest)
    (hargs : p.invocation.args.resolve p.binding = .ok args)
    (hhandle : e.registry.lookup? p.invocation.action = some handle)
    (hbudget : b.appended < e.limits.maxActions)
    (hrun : (handle.performer.perform handle.action.action args).run r (fails b.appended) =
      (.finished result, r'))
    (hnext : ∀ log' next firings, log'.Keeps b.id (rs ++ [next]) → (∀ r ∈ rs, r.seq < next.seq) →
      next.Calls b.id p args (outputOf result) →
      Concludes e log' r'.readClock.2
        { b with firings := firings, queue := rest, appended := b.appended + 1 } next p.chain
        fails Q) :
    Concludes e log r b record chain fails Q := by
  have hmatches : { e with log }.matchesOf record = found := by
    rw [Engine.matchesOf, hburst, hkeeps.records, hfound]
  let new : NewRecord := ⟨b.id, p.depth, p.invocation.action, args, outputOf result, some p.rule,
    r'.readClock.1⟩
  have hkeeps' : (log.append new).2.Keeps b.id (rs ++ [(log.append new).1]) :=
    Log.Keeps.append new hkeeps
  have hconcludes := hnext _ _ (b.firings ++ found.map (Firing.of record)) hkeeps'
    (fun r hr => Nat.lt_succ_of_le (hkeeps.numbered r hr)) ⟨rfl, rfl, rfl, rfl, rfl⟩
  rw [Concludes, Engine.react_of_queuedAfter hmatches hfree hqueue hargs hhandle hbudget]
  simp only [drive, hrun]
  exact hconcludes

end World

end Synchrony

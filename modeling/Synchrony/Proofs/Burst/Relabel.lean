import Synchrony.Proofs.Burst.Course
import Synchrony.Proofs.Matching.Relabel

/-!
# Relabelling of bursts

A `Relabelling` carries over to everything that mentions numbers of records or the name of a burst:
firings, failures, bursts, reports and phases. If it keeps the order of a burst's records, the
relabelled records and phase are a course again (`Course.relabel`).
-/

namespace Synchrony

variable {ι : Type} {τ : Relabelling}

/-! ### Relabelled data -/

/-- The firing with the new numbers of its records. -/
def Firing.relabel (τ : Relabelling) (f : Firing) : Firing :=
  { f with trigger := τ.number f.trigger, records := f.records.map τ.number }

/-- The failure with the new name of the burst. -/
def BurstFailure.relabel (τ : Relabelling) : BurstFailure → BurstFailure
  | .depthExceeded _ limit rule => .depthExceeded τ.burst limit rule
  | .budgetExceeded _ limit => .budgetExceeded τ.burst limit
  | .cycleDetected _ rule => .cycleDetected τ.burst rule

/-- The evaluation with new labels. -/
def Evaluation.relabel (τ : Relabelling) (seen : Evaluation) : Evaluation where
  firings := seen.firings.map (Firing.relabel τ)
  queued := seen.queued
  failure := seen.failure.map (BurstFailure.relabel τ)

/-- What a burst does next, with the new name of the burst. -/
def Turn.relabel {η : Type} (τ : Relabelling) : Turn η → Turn η
  | .over failure => .over (failure.map (BurstFailure.relabel τ))
  | .dispatch pending args handle rest => .dispatch pending args handle rest

/-- The burst with new labels. -/
def Burst.relabel (τ : Relabelling) (b : Burst) : Burst :=
  { b with
    id := τ.burst
    root := b.root.relabel τ
    firings := b.firings.map (Firing.relabel τ) }

/-- The report with new labels. -/
def Report.relabel (τ : Relabelling) (report : Report) : Report where
  id := τ.burst
  root := report.root.relabel τ
  records := report.records.map (Record.relabel τ)
  firings := report.firings.map (Firing.relabel τ)
  failure := report.failure.map (BurstFailure.relabel τ)

/-- The phase with new labels. -/
def Phase.relabel (τ : Relabelling) : Phase ι → Phase ι
  | .invoked action input handle => .invoked action input handle
  | .recorded b record chain => .recorded (b.relabel τ) (record.relabel τ) chain
  | .observed b failure => .observed (b.relabel τ) (failure.map (BurstFailure.relabel τ))
  | .standing (.call b pending args handle) => .standing (.call (b.relabel τ) pending args handle)
  | .standing (.over report) => .standing (.over (report.relabel τ))

/-! ### Evaluation and dispatch -/

lemma evaluate_relabel (limits : Limits) (id : String) (record : Record)
    (chain : List (List Char)) (found : List (Rule × Match)) :
    evaluate limits τ.burst (record.relabel τ) chain
        (found.map fun x => (x.1, x.2.relabel τ)) =
      (evaluate limits id record chain found).relabel τ := by
  induction found with
  | nil => rfl
  | cons x rest ih =>
    obtain ⟨rule, m⟩ := x
    have hdepth : (record.relabel τ).depth = record.depth := rfl
    have hbinding : (m.relabel τ).binding = m.binding := rfl
    rw [List.map_cons, evaluate, evaluate, ih, hdepth, hbinding]
    split
    · rfl
    split
    · rfl
    · rfl

lemma nextTurn_relabel {η : Type} (limits : Limits) (lookup? : ActionRef → Option η) (id : String)
    (appended : Nat) (queue : List Pending) :
    nextTurn limits lookup? τ.burst appended queue =
      (nextTurn limits lookup? id appended queue).relabel τ := by
  induction queue with
  | nil => rfl
  | cons p rest ih =>
    rw [nextTurn, nextTurn]
    split
    · split <;> rfl
    · exact ih

/-! ### Courses -/

lemma Relabelling.KeepsOrder.mono {records records' : List Record} (h : τ.KeepsOrder records')
    (hsub : ∀ r ∈ records, r ∈ records') : τ.KeepsOrder records :=
  StrictMonoOn.mono h (numbersOf_mono hsub)

/-- With new numbers that keep the order of the records, a course stays one. -/
theorem Course.relabel {e : Engine ι} {id : String} {rs : List Record} {phase : Phase ι}
    (h : Course e id rs phase) (hτ : τ.KeepsOrder rs) :
    Course e τ.burst (rs.map (Record.relabel τ)) (phase.relabel τ) := by
  induction h with
  | invoked hlookup => exact .invoked hlookup
  | opened _ seq output time hroot ih =>
    subst hroot
    exact .opened (ih (hτ.mono (by simp))) (τ.number seq) output (τ.clock (τ.number seq)) rfl
  | @observed rs b record chain seen h hseen ih =>
    obtain ⟨-, before, hrs, -⟩ := h.tracks
    have hrecord : record ∈ rs := by simp [hrs]
    have hseen' : seen.relabel τ = evaluate e.limits τ.burst (record.relabel τ) chain
        (e.rules.completedBy (rs.map (Record.relabel τ)) (record.relabel τ)) := by
      rw [RuleTable.completedBy_relabel e.rules hτ hrecord, evaluate_relabel, hseen]
    have hafter : (b.after seen).relabel τ = (b.relabel τ).after (seen.relabel τ) := by
      simp [Burst.after, Burst.relabel, Evaluation.relabel]
    rw [Phase.relabel, hafter]
    exact .observed (ih hτ) hseen'
  | failed _ ih => exact .failed (ih hτ)
  | @finished rs b failure _ hturn ih =>
    refine .finished (ih hτ) ?_
    exact (nextTurn_relabel e.limits e.registry.lookup? id b.appended b.queue).trans
      (congrArg (Turn.relabel τ) hturn)
  | @dispatched rs b pending args handle rest _ hturn ih =>
    refine .dispatched (ih hτ) ?_
    exact (nextTurn_relabel e.limits e.registry.lookup? id b.appended b.queue).trans
      (congrArg (Turn.relabel τ) hturn)
  | @answered rs b pending args handle record _ seq output time hseq hrecord ih =>
    subst hrecord
    rw [List.map_append]
    refine .answered (ih (hτ.mono fun r hr => List.mem_append_left _ hr)) (τ.number seq) output
      (τ.clock (τ.number seq)) (fun r hr => ?_) rfl
    obtain ⟨r', hr', rfl⟩ := List.mem_map.1 hr
    exact hτ (seq_mem_numbersOf (List.mem_append_left _ hr'))
      (seq_mem_numbersOf (List.mem_append_right _ (List.mem_singleton_self _))) (hseq r' hr')

end Synchrony

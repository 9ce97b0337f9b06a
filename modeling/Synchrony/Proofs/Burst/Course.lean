import Synchrony.Proofs.Burst.Traffic
import Synchrony.Proofs.Matching.Completion

/-!
# The course of one burst

`Course e id rs phase` says, without the log and without the other bursts, that the burst `id` can
have made the records `rs` and stand at `phase`. In any traffic every burst follows such a course
(`Traffic.Consistent.course`), so what holds along every course holds for every burst among others.
The firings of a burst are determined by its records (`Course.tracks`): a record fires exactly the
rules that it completes together with the earlier records of the burst.
-/

namespace Synchrony

variable {ι : Type}

/-! ### Evaluation and dispatch -/

/-- The firing of a rule on a record. -/
def Firing.of (record : Record) (x : Rule × Match) : Firing :=
  ⟨x.1.name, record.seq, x.2.records, x.2.binding⟩

/-- The firings on each record in turn. -/
def RuleTable.firingsAmong (t : RuleTable) (records : List Record) : List Firing :=
  records.flatMap fun r => (t.completedBy records r).map (Firing.of r)

/-- An evaluation without failure lets all matches fire, and queues what they call for in order. -/
lemma evaluate_of_failure_eq_none {limits : Limits} {id : String} {record : Record}
    {chain : List (List Char)} {found : List (Rule × Match)}
    (h : (evaluate limits id record chain found).failure = none) :
    (evaluate limits id record chain found).firings = found.map (Firing.of record) ∧
      (evaluate limits id record chain found).queued =
        found.flatMap fun x => consequencesOf x.1 x.2.binding (record.depth + 1) chain := by
  induction found with
  | nil => exact ⟨rfl, rfl⟩
  | cons x rest ih =>
    obtain ⟨rule, m⟩ := x
    rw [evaluate] at h ⊢
    split at h
    · simp at h
    rename_i hdepth
    split at h
    · simp at h
    rename_i hchain
    obtain ⟨hfirings, hqueued⟩ := ih h
    rw [if_neg hdepth, if_neg hchain]
    exact ⟨by simp [hfirings, Firing.of], by simp [hqueued]⟩

/-- The consequence can be dispatched: its arguments have values and its action is declared. -/
def Pending.Dispatchable {η : Type} (lookup? : ActionRef → Option η) (p : Pending) : Prop :=
  (∃ args, p.invocation.args.resolve p.binding = .ok args) ∧
    (lookup? p.invocation.action).isSome = true

section NextTurn

variable {η : Type} {limits : Limits} {lookup? : ActionRef → Option η} {id : String}
  {appended : Nat} {queue : List Pending}

lemma nextTurn_cons_of_not_dispatchable {p : Pending} (h : ¬ p.Dispatchable lookup?) :
    nextTurn limits lookup? id appended (p :: queue) =
      nextTurn limits lookup? id appended queue := by
  rw [nextTurn]
  split
  · rename_i args handle hargs hhandle
    exact absurd ⟨⟨args, hargs⟩, by simp [hhandle]⟩ h
  · rfl

/-- A queue that is left without failure has nothing that can be dispatched. -/
lemma not_dispatchable_of_nextTurn (h : nextTurn limits lookup? id appended queue = .over none) :
    ∀ p ∈ queue, ¬ p.Dispatchable lookup? := by
  induction queue with
  | nil => simp
  | cons p queue ih =>
    by_cases hp : p.Dispatchable lookup?
    · obtain ⟨⟨args, hargs⟩, hhandle⟩ := hp
      obtain ⟨handle, hhandle⟩ := Option.isSome_iff_exists.1 hhandle
      simp only [nextTurn, hargs, hhandle] at h
      split at h <;> simp at h
    · rw [nextTurn_cons_of_not_dispatchable hp] at h
      exact List.forall_mem_cons.2 ⟨hp, ih h⟩

/-- What is dispatched is the first of the queue that can be, with its arguments. -/
lemma exists_skipped_of_nextTurn {pending : Pending} {args : Fields} {handle : η}
    {rest : List Pending}
    (h : nextTurn limits lookup? id appended queue = .dispatch pending args handle rest) :
    ∃ skipped, queue = skipped ++ pending :: rest ∧ (∀ p ∈ skipped, ¬ p.Dispatchable lookup?) ∧
      pending.invocation.args.resolve pending.binding = .ok args ∧
      lookup? pending.invocation.action = some handle := by
  induction queue with
  | nil => simp [nextTurn] at h
  | cons p queue ih =>
    by_cases hp : p.Dispatchable lookup?
    · obtain ⟨⟨args', hargs⟩, hhandle⟩ := hp
      obtain ⟨handle', hhandle⟩ := Option.isSome_iff_exists.1 hhandle
      simp only [nextTurn, hargs, hhandle] at h
      split at h
      · simp at h
      · cases h
        exact ⟨[], rfl, by simp, hargs, hhandle⟩
    · rw [nextTurn_cons_of_not_dispatchable hp] at h
      obtain ⟨skipped, rfl, hskipped, hrest⟩ := ih h
      exact ⟨p :: skipped, rfl, List.forall_mem_cons.2 ⟨hp, hskipped⟩, hrest⟩

end NextTurn

/-! ### Courses -/

/-- The burst with the firings and the queue that an evaluation adds. -/
def Burst.after (b : Burst) (seen : Evaluation) : Burst :=
  { b with firings := b.firings ++ seen.firings, queue := seen.queued ++ b.queue }

/-- The burst `id` can have made these records, in this order, and stand at this phase. -/
inductive Course (e : Engine ι) (id : String) : List Record → Phase ι → Prop where
  | invoked {action : ActionRef} {input : Fields} {handle : Handle ι}
      (hlookup : e.registry.lookup? action = some handle) :
      Course e id [] (.invoked action input handle)
  | opened {action : ActionRef} {input : Fields} {handle : Handle ι} {root : Record}
      (h : Course e id [] (.invoked action input handle)) (seq : Nat) (output : Fields)
      (time : Timestamp) (hroot : root = ⟨seq, id, 0, action, input, output, none, time⟩) :
      Course e id [root] (.recorded { id, root } root [])
  | observed {rs : List Record} {b : Burst} {record : Record} {chain : List (List Char)}
      {seen : Evaluation} (h : Course e id rs (.recorded b record chain))
      (hseen : seen = evaluate e.limits id record chain (e.rules.completedBy rs record)) :
      Course e id rs (.observed (b.after seen) seen.failure)
  | failed {rs : List Record} {b : Burst} {failure : BurstFailure}
      (h : Course e id rs (.observed b (some failure))) :
      Course e id rs (.standing (.over ⟨id, b.root, rs, b.firings, some failure⟩))
  | finished {rs : List Record} {b : Burst} {failure : Option BurstFailure}
      (h : Course e id rs (.observed b none))
      (hturn : nextTurn e.limits e.registry.lookup? id b.appended b.queue = .over failure) :
      Course e id rs (.standing (.over ⟨id, b.root, rs, b.firings, failure⟩))
  | dispatched {rs : List Record} {b : Burst} {pending : Pending} {args : Fields}
      {handle : Handle ι} {rest : List Pending} (h : Course e id rs (.observed b none))
      (hturn : nextTurn e.limits e.registry.lookup? id b.appended b.queue =
        .dispatch pending args handle rest) :
      Course e id rs (.standing (.call { b with queue := rest } pending args handle))
  | answered {rs : List Record} {b : Burst} {pending : Pending} {args : Fields}
      {handle : Handle ι} {record : Record}
      (h : Course e id rs (.standing (.call b pending args handle))) (seq : Nat)
      (output : Fields) (time : Timestamp) (hseq : ∀ r ∈ rs, r.seq < seq)
      (hrecord : record = ⟨seq, id, pending.depth, pending.invocation.action, args, output,
        some pending.rule, time⟩) :
      Course e id (rs ++ [record])
        (.recorded { b with appended := b.appended + 1 } record pending.chain)

namespace Course

variable {e : Engine ι} {id : String} {rs : List Record} {phase : Phase ι}

/-- The records of a burst have increasing numbers. -/
lemma sorted (h : Course e id rs phase) : rs.Pairwise (·.seq < ·.seq) := by
  induction h with
  | invoked => exact .nil
  | opened => exact List.pairwise_singleton _ _
  | observed _ _ ih => exact ih
  | failed _ ih => exact ih
  | finished _ _ ih => exact ih
  | dispatched _ _ ih => exact ih
  | answered _ seq output time hseq hrecord ih =>
    rw [List.pairwise_append]
    refine ⟨ih, List.pairwise_singleton _ _, fun r hr r' hr' => ?_⟩
    rw [List.mem_singleton.1 hr', hrecord]
    exact hseq r hr

lemma burst_eq (h : Course e id rs phase) : ∀ r ∈ rs, r.burst = id := by
  induction h with
  | invoked => simp
  | opened _ seq output time hroot => simp [hroot]
  | observed _ _ ih => exact ih
  | failed _ ih => exact ih
  | finished _ _ ih => exact ih
  | dispatched _ _ ih => exact ih
  | answered _ seq output time hseq hrecord ih =>
    intro r hr
    rcases List.mem_append.1 hr with hr | hr
    · exact ih r hr
    · rw [List.mem_singleton.1 hr, hrecord]

end Course

/-! ### What a burst carries along -/

/-- The burst is called `id`, began with the first record and counts them all. -/
structure Burst.Carries (b : Burst) (id : String) (rs : List Record) : Prop where
  id_eq : b.id = id
  root : rs.head? = some b.root
  appended : b.appended = rs.length

/-- What a phase of the burst `id` with the records `rs` says about them. -/
def Phase.Tracks (t : RuleTable) (id : String) (rs : List Record) : Phase ι → Prop
  | .invoked .. => rs = []
  | .recorded b record _ =>
    b.Carries id rs ∧ ∃ before, rs = before ++ [record] ∧ b.firings = t.firingsAmong before
  | .observed b failure => b.Carries id rs ∧ (failure = none → b.firings = t.firingsAmong rs)
  | .standing (.call b _ _ _) => b.Carries id rs ∧ b.firings = t.firingsAmong rs
  | .standing (.over report) =>
    report.id = id ∧ rs.head? = some report.root ∧ report.records = rs ∧
      (report.failure = none → report.firings = t.firingsAmong rs)

/-- A new record adds the firings of the rules that it completes. -/
lemma RuleTable.firingsAmong_concat (t : RuleTable) {before : List Record} {record : Record}
    (h : ∀ r ∈ before, r.seq ≤ record.seq) :
    t.firingsAmong (before ++ [record]) = t.firingsAmong before ++
      (t.completedBy (before ++ [record]) record).map (Firing.of record) := by
  rw [firingsAmong, firingsAmong, List.flatMap_append, List.flatMap_singleton]
  congr 1
  refine List.flatMap_congr fun r hr => ?_
  rw [completedBy_append]
  intro r' hr'
  rw [List.mem_singleton.1 hr']
  exact h r hr

theorem Course.tracks {e : Engine ι} {id : String} {rs : List Record} {phase : Phase ι}
    (h : Course e id rs phase) : phase.Tracks e.rules id rs := by
  induction h with
  | invoked => rfl
  | opened => exact ⟨⟨rfl, rfl, rfl⟩, [], rfl, rfl⟩
  | @observed rs b record chain seen h hseen ih =>
    obtain ⟨hcarries, before, rfl, hfirings⟩ := ih
    refine ⟨⟨hcarries.id_eq, hcarries.root, hcarries.appended⟩, fun hfailure => ?_⟩
    rw [hseen] at hfailure
    obtain ⟨hnew, -⟩ := evaluate_of_failure_eq_none hfailure
    have hsorted := h.sorted
    rw [List.pairwise_append] at hsorted
    rw [e.rules.firingsAmong_concat fun r hr => (hsorted.2.2 r hr record (by simp)).le,
      Burst.after, hfirings, hseen, hnew]
  | failed _ ih => exact ⟨rfl, ih.1.root, rfl, fun h => by simp at h⟩
  | finished _ _ ih => exact ⟨rfl, ih.1.root, rfl, fun _ => ih.2 rfl⟩
  | dispatched _ _ ih => exact ⟨⟨ih.1.id_eq, ih.1.root, ih.1.appended⟩, ih.2 rfl⟩
  | @answered rs b pending args handle record _ seq output time hseq hrecord ih =>
    obtain ⟨⟨hid, hroot, happended⟩, hfirings⟩ := ih
    exact ⟨⟨hid, by simp [hroot], by simp [happended]⟩, rs, rfl, hfirings⟩

end Synchrony

import Synchrony.Proofs.Burst.Course
import Synchrony.World

/-!
# What a burst leaves of a world

Whatever rules there are, a burst does to the resources what the calls on its records do, one after
the other (`Replays`), and to the engine nothing but append its records to the log and close itself
(`World.Leaves`).
-/

namespace Synchrony

/-- The calls on record, one after the other, make the last resources of the first. -/
inductive Replays (registry : Registry Concept) : Resources → List Record → Resources → Prop where
  | nil (r : Resources) : Replays registry r [] r
  | cons {r r' last : Resources} {record : Record} {rest : List Record} {handle : Handle Concept}
      {result : Except ConceptError Fields}
      (hhandle : registry.lookup? record.action = some handle)
      (hrun : (handle.performer.perform record.action.action record.input).run r =
        (.finished result, r'))
      (houtput : record.output = outputOf result)
      (hrest : Replays registry r'.readClock.2 rest last) : Replays registry r (record :: rest) last

lemma Replays.eq_of_nil {registry : Registry Concept} {r last : Resources}
    (h : Replays registry r [] last) : last = r := by
  cases h
  rfl

/-- The first calls make some resources of the first ones, and the others go on from there. -/
lemma Replays.exists_between {registry : Registry Concept} {records more : List Record}
    {r last : Resources} (h : Replays registry r (records ++ more) last) :
    ∃ between, Replays registry r records between ∧ Replays registry between more last := by
  induction records generalizing r with
  | nil => exact ⟨r, .nil r, h⟩
  | cons record records ih =>
    cases h with
    | cons hhandle hrun houtput hrest =>
      obtain ⟨between, hbefore, hafter⟩ := ih hrest
      exact ⟨between, .cons hhandle hrun houtput hbefore, hafter⟩

/-- What each call on record keeps, and each reading of the clock, is kept by all calls together. -/
lemma Replays.preserves {registry : Registry Concept} {P : Resources → Prop} {r last : Resources}
    {records : List Record} (h : Replays registry r records last)
    (hcall : ∀ record ∈ records, ∀ handle result r r', registry.lookup? record.action = some handle →
      (handle.performer.perform record.action.action record.input).run r = (.finished result, r') →
        P r → P r')
    (hclock : ∀ r : Resources, P r → P r.readClock.2) (hr : P r) : P last := by
  induction h with
  | nil r => exact hr
  | cons hhandle hrun _ _ ih =>
    refine ih (fun record hrecord => hcall record (.tail _ hrecord)) (hclock _ ?_)
    exact hcall _ List.mem_cons_self _ _ _ _ hhandle hrun hr

lemma Registry.action_of_lookup? {ι : Type} {registry : Registry ι} {action : ActionRef}
    {handle : Handle ι} (h : registry.lookup? action = some handle) : handle.action = action := by
  rw [lookup?_eq, Option.bind_eq_some_iff] at h
  obtain ⟨registered, -, h⟩ := h
  obtain ⟨spec, -, rfl⟩ := Option.map_eq_some_iff.1 h
  rfl

/-! ### Steps of the engine -/

/-- After the evaluation of a record a burst is closed, or it calls a declared action. -/
lemma Engine.react_cases {ι : Type} (e : Engine ι) (b : Burst) (record : Record)
    (chain : List (List Char)) :
    (∃ firings failure, e.react b record chain =
        (.over ⟨b.id, b.root, e.log.burstRecords b.id, firings, failure⟩,
          { e with log := (e.log.closeBurst b.id).2 })) ∨
      ∃ b' pending args handle, e.react b record chain = (.call b' pending args handle, e) ∧
        b'.id = b.id ∧ e.registry.lookup? pending.invocation.action = some handle := by
  rw [react]
  generalize hobserve : e.observe b record chain = seen
  obtain ⟨b', failure⟩ := seen
  obtain ⟨rfl, -⟩ := Prod.mk.inj hobserve
  cases failure with
  | some failure => exact .inl ⟨_, some failure, rfl⟩
  | none =>
    simp only [proceed, advance]
    split
    · rename_i failure _
      exact .inl ⟨_, failure, rfl⟩
    · rename_i pending args handle rest hturn
      obtain ⟨-, -, -, -, hhandle⟩ := exists_skipped_of_nextTurn hturn
      exact .inr ⟨_, pending, args, handle, rfl, rfl, hhandle⟩

namespace World

/-- What a burst that ends with a report makes of the world in which its latest record is evaluated.
-/
structure Leaves (w : World) (id : String) (report : Report) (w' : World) : Prop where
  engine : w'.engine = { w.engine with log := w'.engine.log }
  numbered : w.engine.log.appended ≤ w'.engine.log.appended
  others : ∀ other, other ≠ id →
    w'.engine.log.burstRecords other = w.engine.log.burstRecords other
  closed : w'.engine.log.burstRecords id = []
  replays : ∃ rest, report.records = w.engine.log.burstRecords id ++ rest ∧
    Replays w.engine.registry w.resources rest w'.resources

variable {w w' : World} {b : Burst} {report : Report} {pending : Pending} {args : Fields}
  {handle : Handle Concept}

lemma leaves_closeBurst (e : Engine Concept) (r : Resources) (id : String) (root : Record)
    (firings : List Firing) (failure : Option BurstFailure) :
    Leaves ⟨e, r⟩ id ⟨id, root, e.log.burstRecords id, firings, failure⟩
      ⟨{ e with log := (e.log.closeBurst id).2 }, r⟩ where
  engine := rfl
  numbered := Nat.le_refl _
  others := fun _ hne => Log.burstRecords_closeBurst_of_ne _ hne
  closed := Log.burstRecords_closeBurst_self _ _
  replays := ⟨[], (List.append_nil _).symm, .nil r⟩

/-- What a burst leaves from a call on is what the call leaves, and then what the burst leaves. -/
lemma Leaves.of_call {id : String} {new : NewRecord} {result : Except ConceptError Fields}
    {r : Resources} (hid : new.burst = id)
    (hhandle : w.engine.registry.lookup? new.action = some handle)
    (hrun : (handle.performer.perform new.action.action new.input).run w.resources =
      (.finished result, r))
    (houtput : new.output = outputOf result)
    (h : Leaves ⟨{ w.engine with log := (w.engine.log.append new).2 }, r.readClock.2⟩ id report w') :
    Leaves w id report w' := by
  subst hid
  obtain ⟨hengine, hnumbered, hothers, hclosed, rest, hrecords, hreplays⟩ := h
  refine ⟨hengine, (Nat.le_succ _).trans hnumbered, fun other hne => ?_, hclosed,
    (w.engine.log.append new).1 :: rest, ?_, .cons hhandle hrun houtput hreplays⟩
  · exact (hothers other hne).trans (Log.burstRecords_append_of_ne _ hne)
  · rw [hrecords, Log.burstRecords_append_self, List.append_assoc, List.singleton_append]

/-- What a burst leaves that is about to call an action. -/
lemma leaves_of_drive {step : Step Concept} (hstep : step = .call b pending args handle)
    (hhandle : w.engine.registry.lookup? pending.invocation.action = some handle)
    (h : w.drive step = (.over report, w')) : w.Leaves b.id report w' := by
  induction w, step using drive.induct (fun _ _ _ => none) generalizing b pending args handle with
  | case1 w report => cases hstep
  | case2 w b pending args handle wake alarm rest r hrun =>
    cases hstep
    rw [drive, hrun] at h
    cases h
  | case3 w b pending args handle result r hrun time r' hclock next =>
    rename_i ih
    cases hstep
    rw [drive, hrun] at h
    simp only [hclock] at h
    rw [Registry.action_of_lookup? hhandle] at hrun
    obtain rfl : r.readClock.2 = r' := congrArg Prod.snd hclock
    let new : NewRecord := ⟨b.id, pending.depth, pending.invocation.action, args, outputOf result,
      some pending.rule, time⟩
    let e : Engine Concept := { w.engine with log := (w.engine.log.append new).2 }
    refine @Leaves.of_call _ _ _ _ _ new _ _ rfl hhandle hrun rfl ?_
    rcases e.react_cases { b with appended := b.appended + 1 } (w.engine.log.append new).1
      pending.chain with
      ⟨firings, failure, hreact⟩ | ⟨b', pending', args', handle', hreact, hid, hhandle'⟩
    · have hanswer : w.engine.answer b pending args (outputOf result) time = _ := hreact
      rw [hanswer, drive] at h
      cases h
      exact leaves_closeBurst e _ _ _ _ _
    · have hanswer : w.engine.answer b pending args (outputOf result) time = _ := hreact
      have hnext : next = (.call b' pending' args' handle', e) := hreact
      rw [hanswer] at h
      rw [hnext] at ih
      exact hid ▸ ih rfl hhandle' h

/-- What a burst leaves whose latest record is about to be evaluated. -/
theorem leaves_of_react {e : Engine Concept} {r : Resources} {record : Record}
    {chain : List (List Char)}
    (h : drive ⟨(e.react b record chain).2, r⟩ (e.react b record chain).1 = (.over report, w')) :
    Leaves ⟨e, r⟩ b.id report w' := by
  rcases e.react_cases b record chain with
    ⟨firings, failure, hreact⟩ | ⟨b', pending, args, handle, hreact, hid, hhandle⟩
  · rw [hreact, drive] at h
    cases h
    exact leaves_closeBurst e r _ _ _ _
  · rw [hreact] at h
    exact hid ▸ leaves_of_drive rfl hhandle h

/-- What an open burst leaves once it is over. -/
theorem leaves_of_startBurst (h : w.startBurst b = (.over report, w')) :
    w.Leaves b.id report w' := leaves_of_react h

end World

end Synchrony

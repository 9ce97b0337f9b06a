import Synchrony.Proofs.Application.Answering
import Synchrony.Proofs.Application.Concepts
import Synchrony.Proofs.ListCreation.History
import Synchrony.Proofs.World.Replay

/-!
# States that the application reaches

The application is assembled over a store without lists and notifications. From then on bursts are
opened and run, actions are called outside of bursts, time passes and callers wait, and the
application is assembled anew over what is there (`Application.Moves`). In every state that is
reached so the lists are those of calls that were made one after the other, the notifications have
identifiers that were drawn, and a burst that was not run has its first record and no other
(`Application.Stands`).
-/

namespace Synchrony

/-! ### Lists between calls -/

namespace ListCreation

/-- The resources are those of a desk at which no call has the lock. -/
def AtDesk (store : String) (r : Resources) : Prop :=
  ∃ d₀ d, Desk.Opens store d₀ ∧ Desk.Reaches store d₀ d ∧ d.holder = none ∧ d.resources = r

variable {store : String} {r r' : Resources}

lemma Desk.reaches_of_uses {d : Desk} {w : Work}
    (h : w.Uses fun name op => name ≠ store ∨ op.collection ≠ lists) :
    Reaches store d { d with resources := (w.run d.resources).2 } := by
  refine h.run (Q := fun r => Reaches store d { d with resources := r }) ?_ ?_ .refl
  · intro r name op hne hreaches
    exact hreaches.tail (.elsewhere (.operation name op hne))
  · intro r r' hstores hdrawn hreaches
    exact hreaches.tail (.elsewhere (.other hstores hdrawn))

namespace AtDesk

lemma of_empty (h : contents store r = .ok []) : AtDesk store r :=
  ⟨⟨r, [], none, []⟩, _, ⟨rfl, rfl, rfl, h⟩, .refl, rfl, rfl⟩

/-- The lists are in order. -/
lemma exists_entries (h : AtDesk store r) : ∃ entries, Has store entries r ∧ Orderly entries := by
  obtain ⟨d₀, d, hopens, hreaches, -, rfl⟩ := h
  obtain ⟨entries, hkept⟩ := hopens.kept.reaches hreaches
  exact ⟨entries, hkept.sound.has, hkept.sound.orderly⟩

/-- A call of an action of the concept. -/
lemma perform (h : AtDesk store r) {action : String} {input : Fields}
    {result : Except ConceptError Fields}
    (hrun : ((concept store).perform action input).run r = (.finished result, r')) :
    AtDesk store r' := by
  obtain ⟨d₀, d, hopens, hreaches, hfree, rfl⟩ := h
  obtain ⟨d', hreaches', hr', hfree', -⟩ := Desk.exists_reaches_of_run hfree hrun
  exact ⟨d₀, d', hopens, hreaches.trans hreaches', hfree', hr'⟩

/-- A call of an action of another concept. -/
lemma of_uses (h : AtDesk store r) {w : Work} (hw : w.Uses fun _ op => op.collection ≠ lists) :
    AtDesk store (w.run r).2 := by
  obtain ⟨d₀, d, hopens, hreaches, hfree, rfl⟩ := h
  exact ⟨d₀, _, hopens, hreaches.trans (Desk.reaches_of_uses (hw.imp fun _ _ hne => .inr hne)),
    hfree, rfl⟩

lemma of_stores (h : AtDesk store r) (hstores : r'.stores = r.stores)
    (hdrawn : r.drawn ≤ r'.drawn) :
    AtDesk store r' := by
  obtain ⟨d₀, d, hopens, hreaches, hfree, rfl⟩ := h
  exact ⟨d₀, _, hopens, hreaches.tail (.elsewhere (.other hstores hdrawn)), hfree, rfl⟩

end AtDesk

end ListCreation

namespace Application

/-! ### What stays true of the resources -/

/-- The lists stand between calls, and all notifications have identifiers that were drawn. -/
structure InOrder (store : String) (r : Resources) : Prop where
  lists : ListCreation.AtDesk store r
  notices : r.IdsDrawn store Notifying.notifications

namespace InOrder

variable {store : String} {r r' : Resources}

lemma of_stores (h : InOrder store r) (hstores : r'.stores = r.stores)
    (hdrawn : r.drawn ≤ r'.drawn) :
    InOrder store r' :=
  ⟨h.lists.of_stores hstores hdrawn, h.notices.of_stores hstores hdrawn⟩

/-- A call of an action. -/
lemma call (h : InOrder store r) {action : ActionRef} {handle : Handle Concept} {input : Fields}
    {result : Except ConceptError Fields} (hhandle : (registry store).lookup? action = some handle)
    (hrun : (handle.performer.perform action.action input).run r = (.finished result, r')) :
    InOrder store r' := by
  have hr' : r' = ((handle.performer.perform action.action input).run r).2 := by rw [hrun]
  refine ⟨?_, hr' ▸ h.notices.run _⟩
  by_cases hlists : action.concept = ListCreation.conceptName
  · have hperformer : handle.performer = ListCreation.concept store := by
      rcases performer_of_lookup? hhandle with ⟨hconcept, -⟩ | ⟨-, heq⟩ | ⟨hconcept, -⟩
      · exact absurd (hlists.symm.trans hconcept) (by decide)
      · exact heq
      · exact absurd (hlists.symm.trans hconcept) (by decide)
    exact h.lists.perform (hperformer ▸ hrun)
  · exact hr' ▸ h.lists.of_uses (uses_of_ne_listCreation hhandle hlists input)

lemma replays (h : InOrder store r) {records : List Record}
    (hreplays : Replays (registry store) r records r') : InOrder store r' :=
  hreplays.preserves (fun _ _ _ _ _ _ hhandle hrun hr => hr.call hhandle hrun)
    (fun _ hr => hr.of_stores rfl (Nat.le_refl _)) h

end InOrder

lemma drawn_le_run (w : Work) (r : Resources) : r.drawn ≤ (w.run r).2.drawn :=
  (Work.Uses.trivial w).run (Q := fun r' => r.drawn ≤ r'.drawn)
    (fun r' name op _ hr => hr.trans (r'.drawn_le_onStore name op))
    (fun _ _ _ hdrawn hr => hr.trans hdrawn) (Nat.le_refl _)

lemma drawn_le_of_replays {registry : Registry Concept} {records : List Record} {r r' : Resources}
    (h : Replays registry r records r') : r.drawn ≤ r'.drawn := by
  refine h.preserves (P := fun r' => r.drawn ≤ r'.drawn) ?_ (fun _ hr => hr) (Nat.le_refl _)
  intro record _ handle result r₁ r₂ _ hrun hr
  have hle := drawn_le_run (handle.performer.perform record.action.action record.input) r₁
  rw [hrun] at hle
  exact hr.trans hle

/-! ### Moves -/

/-- The application at work: its world, and the bursts that were opened and not run. -/
structure State where
  world : World
  opened : List Burst := []

/-- What can happen next. No action pauses, so a burst that begins is open at once, and runs to its
end. -/
inductive Moves (c : EngineConfig) (store : String) (s : State) : State → Prop where
  | begins {action : ActionRef} {input : Fields} {b : Burst} {w : World}
      (h : s.world.begin action input = .ok (.opened b, w)) : Moves c store s ⟨w, b :: s.opened⟩
  | runs {b : Burst} {report : Report} {w : World} (hb : b ∈ s.opened)
      (h : s.world.startBurst b = (.over report, w)) :
      Moves c store s ⟨w, s.opened.filter (·.id ≠ b.id)⟩
  | calls {action : ActionRef} {handle : Handle Concept} {input : Fields}
      {result : Except ConceptError Fields} {r : Resources}
      (hhandle : s.world.engine.registry.lookup? action = some handle)
      (hrun : (handle.performer.perform action.action input).run s.world.resources =
        (.finished result, r)) : Moves c store s ⟨{ s.world with resources := r }, s.opened⟩
  | passes {r : Resources} (hstores : r.stores = s.world.resources.stores)
      (hdrawn : s.world.resources.drawn ≤ r.drawn) :
      Moves c store s ⟨{ s.world with resources := r }, s.opened⟩
  | restarts {done : Installation} {w : World}
      (h : assemble (World.ofConfig c s.world.resources) store = .ok (done, w)) :
      Moves c store s ⟨w, []⟩

/-- Any number of moves. -/
def Reaches (c : EngineConfig) (store : String) : State → State → Prop :=
  Relation.ReflTransGen (Moves c store)

/-- The application was just assembled, over a store without lists and notifications. -/
structure Assembled (c : EngineConfig) (store : String) (s : State) : Prop where
  assembled : ∃ resources done, assemble (World.ofConfig c resources) store = .ok (done, s.world)
  opened : s.opened = []
  lists : ListCreation.contents store s.world.resources = .ok []
  notices : s.world.resources.ids store Notifying.notifications = []

/-- The burst was opened and not run. -/
structure Waits (log : Log) (b : Burst) : Prop where
  new : b = { id := b.root.burst, root := b.root }
  keeps : log.Keeps b.root.burst [b.root]
  depth : b.root.depth = 0
  requests : b.root.action = Requesting.requestAction → ∃ request, b.root.Requests request

/-- What is true in every state. -/
structure Stands (store : String) (s : State) : Prop where
  runs : Runs s.world.engine store
  resources : InOrder store s.world.resources
  logged : ∀ id, s.world.engine.log.burstRecords id ≠ [] → id ∈ s.world.resources.drawnIds
  opened : ∀ b ∈ s.opened, Waits s.world.engine.log b

variable {c : EngineConfig} {store : String} {s s' : State} {w w' : World} {b : Burst}
  {action : ActionRef} {input : Fields}

lemma Runs.of_log {e : Engine Concept} (h : Runs e store) (log : Log) : Runs { e with log } store :=
  ⟨h.registry, h.rules, h.depth, h.actions⟩

/-- The assembly changes no resources. -/
lemma eq_of_assemble {resources : Resources} {done : Installation}
    (h : assemble (World.ofConfig c resources) store = .ok (done, w)) :
    w = ⟨{ (World.ofConfig c resources).engine with registry := registry store, rules := table },
      resources⟩ := by
  rw [assemble, registerAll_concepts store rfl] at h
  have hw := (Prod.mk.inj (Except.ok.inj h)).2
  exact hw.symm.trans (congrArg (fun rules => (⟨{ (World.ofConfig c resources).engine with
    registry := registry store, rules }, resources⟩ : World)) (rules_install store))

/-- A burst that begins has the record of its stimulus. -/
lemma exists_of_begin (h : w.begin action input = .ok (.opened b, w')) :
    ∃ (handle : Handle Concept) (result : Except ConceptError Fields) (r : Resources) (new : NewRecord),
      w.engine.registry.lookup? action = some handle ∧
      (handle.performer.perform action.action input).run w.resources.drawId.2 =
        (.finished result, r) ∧
      new = ⟨w.resources.drawId.1, 0, action, input, outputOf result, none, r.readClock.1⟩ ∧
      b = { id := new.burst, root := (w.engine.log.append new).1 } ∧
      w' = ⟨{ w.engine with log := (w.engine.log.append new).2 }, r.readClock.2⟩ := by
  rw [World.begin] at h
  cases hresolve : w.engine.registry.resolve action with
  | error e =>
    rw [hresolve] at h
    cases h
  | ok handle =>
    rw [hresolve] at h
    have hopening : w.opening w.resources.drawId.1 action input
        ((handle.performer.perform action.action input).run w.resources.drawId.2) =
          (.opened b, w') := Except.ok.inj h
    rcases hrun : (handle.performer.perform action.action input).run w.resources.drawId.2 with
      ⟨progress, r⟩
    rw [hrun] at hopening
    cases progress with
    | paused wake alarm rest => cases hopening
    | finished result =>
      cases hopening
      exact ⟨handle, result, r, _, Registry.resolve_eq_ok_iff.1 hresolve, hrun, rfl, rfl, rfl⟩

/-- A request that is made has an identifier. -/
lemma exists_requests {handle : Handle Concept} {r r' : Resources}
    {result : Except ConceptError Fields}
    (hhandle : (registry store).lookup? Requesting.requestAction = some handle)
    (hrun : (handle.performer.perform Requesting.requestAction.action input).run r =
      (.finished result, r')) : ∃ request, outputOf result = Requesting.named request := by
  rw [lookup?_requestAction] at hhandle
  cases hhandle
  cases hrun
  exact ⟨_, rfl⟩

namespace Waits

variable {log log' : Log}

lemma burst_eq (h : Waits log b) : b.root.burst = b.id := (congrArg Burst.id h.new).symm

lemma queue (h : Waits log b) : b.queue = [] := congrArg Burst.queue h.new

lemma appended (h : Waits log b) : b.appended = 1 := congrArg Burst.appended h.new

lemma keeps_id (h : Waits log b) : log.Keeps b.id [b.root] := h.burst_eq ▸ h.keeps

/-- Records of other bursts do not matter. -/
lemma of_burstRecords (h : Waits log b)
    (hrecords : log'.burstRecords b.root.burst = log.burstRecords b.root.burst)
    (hnumbered : log.appended ≤ log'.appended) : Waits log' b :=
  ⟨h.new, ⟨hrecords.trans h.keeps.records, fun r hr => (h.keeps.numbered r hr).trans hnumbered⟩,
    h.depth, h.requests⟩

end Waits

/-! ### What every move keeps -/

namespace Stands

section

variable (h : Stands store s)
include h

lemma begins (hbegin : s.world.begin action input = .ok (.opened b, w)) :
    Stands store ⟨w, b :: s.opened⟩ := by
  obtain ⟨handle, result, r, new, hhandle, hrun, hnew, rfl, rfl⟩ := exists_of_begin hbegin
  rw [h.runs.registry] at hhandle
  have hid : new.burst = s.world.resources.drawId.1 := congrArg NewRecord.burst hnew
  have hfresh : s.world.engine.log.burstRecords new.burst = [] := by
    by_contra hne
    have hmem := h.logged _ hne
    rw [hid] at hmem
    exact s.world.resources.idText_notMem_drawnIds hmem
  have hdrawn : s.world.resources.drawn + 1 ≤ r.drawn := by
    have hle := drawn_le_run (handle.performer.perform action.action input) s.world.resources.drawId.2
    rwa [hrun] at hle
  have hsub : s.world.resources.drawnIds ⊆ r.readClock.2.drawnIds :=
    Resources.drawnIds_subset (Nat.le_of_succ_le hdrawn)
  refine ⟨h.runs.of_log _, ?_, fun other hother => ?_, List.forall_mem_cons.2 ⟨?_, fun b hb => ?_⟩⟩
  · have hinOrder : InOrder store s.world.resources.drawId.2 :=
      h.resources.of_stores rfl (Nat.le_succ _)
    exact (hinOrder.call hhandle hrun).of_stores rfl (Nat.le_refl _)
  · by_cases heq : other = new.burst
    · exact Resources.mem_drawnIds_iff.2 ⟨_, hdrawn, (heq.trans hid).symm⟩
    · exact hsub (h.logged other (by rwa [← Log.burstRecords_append_of_ne _ heq]))
  · refine ⟨rfl, Log.Keeps.append new ⟨hfresh, by simp⟩, congrArg NewRecord.depth hnew,
      fun haction => ?_⟩
    have hrequest : action = Requesting.requestAction :=
      (congrArg NewRecord.action hnew).symm.trans haction
    subst hrequest
    obtain ⟨request, houtput⟩ := exists_requests hhandle hrun
    exact ⟨request, haction, (congrArg NewRecord.output hnew).trans houtput⟩
  · have hwaits := h.opened b hb
    refine hwaits.of_burstRecords (Log.burstRecords_append_of_ne _ fun heq => ?_) (Nat.le_succ _)
    have hrecords := hwaits.keeps.records
    rw [heq, hfresh] at hrecords
    cases hrecords

lemma runs_burst {report : Report} (hrun : s.world.startBurst b = (.over report, w)) :
    Stands store ⟨w, s.opened.filter (·.id ≠ b.id)⟩ := by
  have hleaves := World.leaves_of_startBurst hrun
  obtain ⟨rest, -, hreplays⟩ := hleaves.replays
  rw [h.runs.registry] at hreplays
  have hdrawn := drawn_le_of_replays hreplays
  refine ⟨?_, h.resources.replays hreplays, fun id hid => ?_, fun other hother => ?_⟩
  · rw [hleaves.engine]
    exact h.runs.of_log _
  · refine Resources.drawnIds_subset hdrawn (h.logged id ?_)
    by_cases heq : id = b.id
    · rw [heq, hleaves.closed] at hid
      exact absurd rfl hid
    · rwa [← hleaves.others id heq]
  · obtain ⟨hmem, hne⟩ := List.mem_filter.1 hother
    have hwaits := h.opened other hmem
    have hid : other.root.burst ≠ b.id := by
      rw [hwaits.burst_eq]
      simpa using hne
    exact hwaits.of_burstRecords (hleaves.others _ hid) hleaves.numbered

lemma of_resources {r : Resources} (hr : InOrder store r)
    (hdrawn : s.world.resources.drawn ≤ r.drawn) :
    Stands store ⟨{ s.world with resources := r }, s.opened⟩ :=
  ⟨h.runs, hr, fun id hid => Resources.drawnIds_subset hdrawn (h.logged id hid), h.opened⟩

end

/-- The application that is assembled over resources that are in order. -/
lemma of_assemble (hdepth : 2 ≤ c.maxDepth) (hactions : 4 ≤ c.maxActions) {resources : Resources}
    {done : Installation} (hresources : InOrder store resources)
    (h : assemble (World.ofConfig c resources) store = .ok (done, w)) : Stands store ⟨w, []⟩ := by
  rw [eq_of_assemble h]
  refine ⟨⟨rfl, rfl, hdepth, UInt64.le_iff_toNat_le.1 hactions⟩, hresources, fun id hid => ?_, by simp⟩
  exact absurd rfl hid

lemma moves (h : Stands store s) (hdepth : 2 ≤ c.maxDepth) (hactions : 4 ≤ c.maxActions)
    (hmoves : Moves c store s s') : Stands store s' := by
  cases hmoves with
  | begins hbegin => exact h.begins hbegin
  | runs _ hrun => exact h.runs_burst hrun
  | @calls action handle input result r hhandle hrun =>
    rw [h.runs.registry] at hhandle
    have hle := drawn_le_run (handle.performer.perform action.action input) s.world.resources
    rw [hrun] at hle
    exact h.of_resources (h.resources.call hhandle hrun) hle
  | passes hstores hdrawn => exact h.of_resources (h.resources.of_stores hstores hdrawn) hdrawn
  | restarts hassemble => exact of_assemble hdepth hactions h.resources hassemble

end Stands

lemma Assembled.stands (h : Assembled c store s) (hdepth : 2 ≤ c.maxDepth)
    (hactions : 4 ≤ c.maxActions) :
    Stands store s := by
  obtain ⟨⟨resources, done, hassemble⟩, hopened, hlists, hnotices⟩ := h
  obtain ⟨world, opened⟩ := s
  obtain rfl : opened = [] := hopened
  have hresources : world.resources = resources := congrArg World.resources (eq_of_assemble hassemble)
  subst hresources
  refine Stands.of_assemble hdepth hactions ⟨.of_empty hlists, fun id hid => ?_⟩ hassemble
  rw [hnotices] at hid
  cases hid

/-- All states that are reached are in order. -/
theorem Assembled.stands_of_reaches (h : Assembled c store s) (hdepth : 2 ≤ c.maxDepth)
    (hactions : 4 ≤ c.maxActions) (hreaches : Reaches c store s s') : Stands store s' := by
  induction hreaches with
  | refl => exact h.stands hdepth hactions
  | tail _ hmoves ih => exact ih.moves hdepth hactions hmoves

/-! ### Requests -/

/-- A request can be made in every state. -/
lemma Stands.exists_begin (h : Stands store s) (input : Fields) :
    ∃ b w, s.world.begin Requesting.requestAction input = .ok (.opened b, w) ∧
      b.root.action = Requesting.requestAction ∧ b.root.input = input ∧
      w.resources.stores = s.world.resources.stores ∧
      s.world.resources.drawn ≤ w.resources.drawn := by
  have hresolve : s.world.engine.registry.resolve Requesting.requestAction =
      .ok ⟨Requesting.requestAction, ⟨"request", ["path"], [Requesting.requestField]⟩,
        Requesting.concept⟩ := by
    rw [h.runs.registry, Registry.resolve, lookup?_requestAction]
  have hopened : s.world.begin Requesting.requestAction input =
      .ok (s.world.opening s.world.resources.drawId.1 Requesting.requestAction input
        (Requesting.request.run s.world.resources.drawId.2)) := by
    rw [World.begin, hresolve]
    rfl
  exact ⟨_, _, hopened, rfl, rfl, rfl, Nat.le_add_right _ 2⟩

/-- A request made as soon as the application is assembled, over a store that is empty. -/
lemma exists_reaches_request {c : EngineConfig} (hdepth : 2 ≤ c.maxDepth)
    (hactions : 4 ≤ c.maxActions)
    (store : String) (input : Fields) :
    ∃ s₀ s b, Assembled c store s₀ ∧ Reaches c store s₀ s ∧ b ∈ s.opened ∧
      b.root.action = Requesting.requestAction ∧ b.root.input = input ∧
      ListCreation.Has store [] s.world.resources := by
  obtain ⟨done, w, hassemble, -⟩ := exists_assemble c {} store
  have hresources : w.resources = {} := congrArg World.resources (eq_of_assemble hassemble)
  have hempty : ListCreation.contents store w.resources = .ok [] := by
    rw [hresources]
    rfl
  have hassembled : Assembled c store ⟨w, []⟩ := by
    refine ⟨⟨_, _, hassemble⟩, rfl, hempty, ?_⟩
    rw [show (State.mk w []).world.resources = {} from hresources]
    rfl
  obtain ⟨b, w', hbegin, haction, hinput, hstores, hdrawn⟩ :=
    (hassembled.stands hdepth hactions).exists_begin input
  exact ⟨⟨w, []⟩, ⟨w', [b]⟩, b, hassembled, .single (.begins hbegin), List.mem_singleton_self b, haction,
    hinput, (ListCreation.has_nil hempty).of_elsewhere (.other hstores hdrawn)⟩

end Application

end Synchrony

import Synchrony.Proofs.Http.Leaks

/-!
# Requests that bursts leave behind

Bursts may be begun by anybody, with any stimulus, and their requests live next to those of others:
somebody may await a slot, abandon it or open one at any time (`Server.Occurs`). When a burst is over,
releasing what is nested in it forgets every request it issued but the one it began with, and leaves
all other slots as they are, with their responses and with those who wait
(`Server.releaseNested_frame`). Whether the burst failed does not matter, as its report has every call
that returned.
-/

namespace Synchrony.Http

open Requesting

namespace Server

/-- What may happen while bursts are going on. -/
inductive Occurs (s : Server) : Server → Prop where
  /-- Anybody invokes an action as the stimulus of a new burst. -/
  | begins {b : String} {action : ActionRef} {input : Fields} {traffic : Traffic Concept}
      (htraffic : s.traffic.step? (.begin b action input) = some traffic) :
      Occurs s { s with traffic }
  | advance {b : String} {s' : Server} (h : Advance b s s') : Occurs s s'
  /-- Outside of bursts anything is done to slots: they are awaited, abandoned, or opened under
  identifiers that are not fresh from then on. -/
  | elsewhere {slots : Slots} {used : List String} (hused : s.used ⊆ used) :
      Occurs s { s with slots, used }

/-- What can come of an engine and slots. -/
inductive Happens (e : Engine Concept) (start : Slots) : Server → Prop where
  | idle : Happens e start (idle e start)
  | step {s s' : Server} (h : Happens e start s) (hstep : Occurs s s') : Happens e start s'

variable {e : Engine Concept} {start : Slots} {s s' : Server} {b id : String}

lemma Told.occurs (h : s.Told e) (hstep : Occurs s s') : s'.Told e := by
  cases hstep with
  | begins htraffic =>
    refine Goes.told h (h.goes_of_begin htraffic ?_ ?_ ?_) <;> rfl
  | advance hadvance => exact (h.goes_of_advance hadvance).told h
  | elsewhere hused => exact ⟨h.consistent, h.pending, h.told⟩

lemma Issues.occurs (h : s.Issues start) (hstep : Occurs s s') : s'.Issues start := by
  cases hstep with
  | begins htraffic => exact h.congr (List.append_nil _).symm rfl rfl
  | advance hadvance => exact h.advance hadvance
  | elsewhere hused =>
    exact ⟨fun id hid => hused (h.used id hid), h.once,
      fun id hid => ⟨hused (h.before id hid).1, (h.before id hid).2⟩⟩

namespace Happens

lemma told (h : Happens e start s) : s.Told e := by
  induction h with
  | idle => exact .idle e start
  | step h hstep ih => exact ih.occurs hstep

lemma issues (h : Happens e start s) : s.Issues start := by
  induction h with
  | idle => exact .idle e start
  | step h hstep ih => exact ih.occurs hstep

end Happens

/-- What is nested in a burst that is over is forgotten: of the requests that the burst issued, the
slot of the one it began with may be left. That slot, the slots of the requests that other bursts
issued and those that no burst issued are as before, and so is what those see who wait for them. -/
theorem releaseNested_frame (h : Happens e start s) {report : Report}
    (hreport : s.traffic.report? b = some report) {w : World} (hw : w.resources.slots = s.slots) :
    let slots := (w.releaseNested report).resources.slots
    (∀ id, .issued b id ∈ s.signs → report.rootRequest? ≠ some id → slots.live.get? id = none) ∧
      (∀ id, report.rootRequest? = some id → s.slots.AgreeAt id slots) ∧
      (∀ b' id, .issued b' id ∈ s.signs → b' ≠ b → s.slots.AgreeAt id slots) ∧
      ∀ id, .issued b id ∉ s.signs → s.slots.AgreeAt id slots := by
  intro slots
  have hslots : slots = s.slots.release report.nestedRequests := by
    rw [← hw]
    rfl
  have hnested (id : String) :
      id ∈ report.nestedRequests ↔ .issued b id ∈ s.signs ∧ report.rootRequest? ≠ some id :=
    mem_nestedRequests_iff h.told h.issues hreport
  have hsame {id : String} (hid : id ∉ report.nestedRequests) : s.slots.AgreeAt id slots :=
    hslots ▸ Slots.agreeAt_release hid
  refine ⟨fun id hissued hroot => ?_, fun id hroot => ?_, fun b' id hissued hne => ?_,
    fun id hnot => ?_⟩
  · rw [hslots, Slots.get?_live_release, if_pos ((hnested id).2 ⟨hissued, hroot⟩)]
  · exact hsame fun hmem => ((hnested id).1 hmem).2 hroot
  · exact hsame fun hmem => hne (h.issues.burst_unique hissued ((hnested id).1 hmem).1)
  · exact hsame fun hmem => hnot ((hnested id).1 hmem).1

end Server

namespace Doorbell

/-- After a ring and the request that it led to, somebody begins a burst with a request. -/
lemma exists_happens : ∃ s, Server.Happens engine {} s ∧ s.traffic.report? "a" = some report ∧
    s.signs = [.issued "a" "r", .issued "b" "t"] ∧ s.slots.live.get? "t" = some {} := by
  have begun : Server.Happens engine {} _ := .step .idle (.begins step?_begin)
  have rung := begun.step (.advance (.answered called?_traffic.1 rfl (by decide) step?_rung))
  have called := (rung.step (.advance (.goes (.inl rfl) step?_observe.1))).step
    (.advance (.goes (.inr rfl) step?_proceed.1))
  have requested := called.step (.advance
    (.request called?_traffic.2 rfl (show "r" ∉ [] from List.not_mem_nil)))
  have recorded := requested.step (.advance (.returned rfl step?_requested))
  have ended := (recorded.step (.advance (.goes (.inl rfl) step?_observe.2))).step
    (.advance (.goes (.inr rfl) step?_proceed.2))
  have other : (traffic 7).step? (.begin "b" requestAction args) =
      some (((traffic 7).step? (.begin "b" requestAction args)).get rfl) := (Option.some_get _).symm
  have asked := (ended.step (.begins other)).step (.advance (.request (b := "b") rfl rfl
    (show "t" ∉ ["r"] by decide)))
  exact ⟨_, asked, rfl, rfl, rfl⟩

end Doorbell

/-- The request that followed the ring is forgotten, and the one of the other burst is not. -/
theorem Server.releaseNested_frame_doorbell : ∃ s, Happens Doorbell.engine {} s ∧
    s.traffic.report? "a" = some Doorbell.report ∧
    (s.host.world.releaseNested Doorbell.report).resources.slots.live.get? "r" = none ∧
    (s.host.world.releaseNested Doorbell.report).resources.slots.live.get? "t" = some {} := by
  obtain ⟨s, hhappens, hreport, hsigns, hlive⟩ := Doorbell.exists_happens
  obtain ⟨hgone, -, hothers, -⟩ := releaseNested_frame hhappens hreport (w := s.host.world) rfl
  refine ⟨s, hhappens, hreport, hgone "r" (by simp [hsigns]) nofun, ?_⟩
  exact (hothers "b" "t" (by simp [hsigns]) (by decide)).1.trans hlive

end Synchrony.Http

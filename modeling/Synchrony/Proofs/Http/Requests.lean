import Synchrony.Proofs.Http.Served
import Synchrony.Proofs.RuleTable.Installed

/-!
# The requests of bursts

No identifier is issued twice (`Server.Issues`). So every request belongs to the burst that issued it,
the requests that a burst forgets when it is over are all it issued but the one it began with
(`Server.mem_nestedRequests_iff`), and its report tells whether it gave the response to a request
(`Server.responded_iff`).
-/

namespace Synchrony

/-- The request that a burst began with, if it did. -/
def Report.rootRequest? (report : Report) : Option String :=
  if report.root.action = Requesting.requestAction then
    report.root.output.string? Requesting.requestField
  else none

end Synchrony

namespace Synchrony.Http

open Requesting

namespace Sign

/-- The request that was issued. -/
def issued? : Sign → Option String
  | issued _ id => some id
  | _ => none

lemma exists_of_issued? {sign : Sign} {id : String} (h : sign.issued? = some id) :
    ∃ b, sign = issued b id := by
  cases sign with
  | issued b id' =>
    cases h
    exact ⟨b, rfl⟩
  | _ => cases h

end Sign

namespace Server

/-- The requests that were issued, in their order. -/
def issued (s : Server) : List String := s.signs.filterMap Sign.issued?

/-- Requests get identifiers that are fresh, also among those of the slots that were there before. -/
structure Issues (start : Slots) (s : Server) : Prop where
  used : ∀ id ∈ s.issued, id ∈ s.used
  once : s.issued.Nodup
  before : ∀ id, start.live.contains id = true → id ∈ s.used ∧ id ∉ s.issued

variable {e : Engine Concept} {start : Slots} {s s' : Server} {b b' q id : String} {n limit : Nat}

lemma mem_issued_iff : id ∈ s.issued ↔ ∃ b, .issued b id ∈ s.signs := by
  constructor
  · intro hid
    obtain ⟨sign, hsign, hissued⟩ := List.mem_filterMap.1 hid
    obtain ⟨b, rfl⟩ := Sign.exists_of_issued? hissued
    exact ⟨b, hsign⟩
  · rintro ⟨b, hsign⟩
    exact List.mem_filterMap.2 ⟨_, hsign, rfl⟩

namespace Issues

lemma idle (e : Engine Concept) (start : Slots) : (Server.idle e start).Issues start := by
  refine ⟨?_, ?_, fun id hid => ⟨KeyMap.mem_keys_iff.2 hid, ?_⟩⟩ <;> simp [Server.idle, issued]

lemma append (h : s.Issues start) (hfresh : id ∉ s.used)
    (hissued : s'.issued = s.issued ++ [id]) (hused : s'.used = id :: s.used) :
    s'.Issues start := by
  refine ⟨fun id' hid' => ?_, ?_, fun id' hid' => ⟨?_, fun hmem => ?_⟩⟩
  · rw [hissued] at hid'
    rw [hused]
    rcases List.mem_append.1 hid' with hid' | hid'
    · exact List.mem_cons_of_mem _ (h.used id' hid')
    · exact List.mem_cons.2 (.inl (List.mem_singleton.1 hid'))
  · rw [hissued, List.nodup_append]
    refine ⟨h.once, List.nodup_singleton _, fun id₁ hid₁ id₂ hid₂ heq => hfresh ?_⟩
    rw [← List.mem_singleton.1 hid₂, ← heq]
    exact h.used id₁ hid₁
  · rw [hused]
    exact List.mem_cons_of_mem _ (h.before id' hid').1
  · rw [hissued] at hmem
    rcases List.mem_append.1 hmem with hmem | hmem
    · exact (h.before id' hid').2 hmem
    · rw [List.mem_singleton.1 hmem] at hid'
      exact hfresh (h.before id hid').1

lemma congr (h : s.Issues start) {signs : List Sign} (hsigns : s'.signs = s.signs ++ signs)
    (hnone : signs.filterMap Sign.issued? = []) (hused : s'.used = s.used) : s'.Issues start := by
  have hissued : s'.issued = s.issued := by
    rw [issued, hsigns, List.filterMap_append, hnone, List.append_nil, issued]
  exact ⟨by rw [hissued, hused]; exact h.used, by rw [hissued]; exact h.once,
    by rw [hissued, hused]; exact h.before⟩

lemma advance (h : s.Issues start) (hadvance : Advance b s s') : s'.Issues start := by
  cases hadvance with
  | request hcalled hidle hfresh => exact h.append hfresh List.filterMap_append rfl
  | sent hsending => exact h.congr rfl rfl rfl
  | _ => exact h.congr (List.append_nil _).symm rfl rfl

theorem step {config : RequestingConfig} (h : s.Issues start) (hstep : Step config s s') :
    s'.Issues start := by
  cases hstep with
  | direct hbody haction htraffic => exact h.congr (List.append_nil _).symm rfl rfl
  | routed hbody haction hopening hfresh htraffic =>
    exact h.append hfresh List.filterMap_append rfl
  | advance hgoes hadvance => exact h.advance hadvance
  | finish hcall hgoing hreport => exact h.congr rfl rfl rfl
  | reply hcall hstage hreport => exact h.congr rfl rfl rfl
  | timer hcall hopen hrunning => exact h.congr rfl rfl rfl
  | _ => exact h.congr (List.append_nil _).symm rfl rfl

/-- A request is issued in one burst only. -/
lemma burst_unique (h : s.Issues start) (hb : .issued b id ∈ s.signs)
    (hb' : .issued b' id ∈ s.signs) : b = b' := by
  by_contra hne
  have hsymm : Std.Symm fun x y : Sign => ∀ id, x.issued? = some id → ∀ id',
      y.issued? = some id' → id ≠ id' := ⟨fun x y hxy id hid id' hid' => (hxy id' hid' id hid).symm⟩
  have hpairwise := List.pairwise_filterMap.1 (List.nodup_iff_pairwise_ne.1 h.once)
  refine hpairwise.forall hb hb' (fun heq => hne ?_) id rfl id rfl rfl
  cases heq
  rfl

end Issues

/-! ### What the signs say of a burst -/

namespace Told

/-- A sign of a burst stands for a call that returned. -/
lemma mem_signs_iff (h : s.Told e) {sign : Sign} (hburst : sign.burst? = some b) :
    sign ∈ s.signs ↔ ∃ x ∈ s.returns b, Sign.of? b x = some sign := by
  rw [← List.mem_filterMap, ← h.told b, List.mem_filter]
  simp [hburst]

lemma issued_mem_iff (h : s.Told e) : .issued b id ∈ s.signs ↔ ∃ x ∈ s.returns b,
    x.action = requestAction ∧ x.output.string? requestField = some id := by
  rw [h.mem_signs_iff rfl]
  refine exists_congr fun x => and_congr_right fun _ => ⟨Sign.of?_eq_issued, fun ⟨haction, hid⟩ => ?_⟩
  rw [Sign.of?, if_pos haction, hid, Option.map_some]

lemma responded_mem_iff (h : s.Told e) : (∃ args, .responded b id args ∈ s.signs) ↔
    ∃ x ∈ s.returns b, x.action = respondAction ∧ x.output.contains "error" = false ∧
      x.args.string? requestField = some id := by
  constructor
  · rintro ⟨args, hmem⟩
    obtain ⟨x, hx, hof⟩ := (h.mem_signs_iff rfl).1 hmem
    exact ⟨x, hx, Sign.of?_eq_responded hof⟩
  · rintro ⟨x, hx, haction, herror, hid⟩
    refine ⟨x.args, (h.mem_signs_iff rfl).2 ⟨x, hx, ?_⟩⟩
    rw [Sign.of?, if_neg (by rw [haction]; decide), if_pos ⟨haction, herror⟩, hid, Option.map_some]

end Told

/-- The report of a burst tells whether it gave the response to a request. -/
lemma responded_iff (h : s.Told e) {report : Report} (hreport : s.traffic.report? b = some report) :
    Call.responded report q = true ↔ ∃ args, .responded b q args ∈ s.signs := by
  rw [h.responded_mem_iff, h.returns_of_report? hreport, Call.responded, List.any_eq_true]
  constructor
  · rintro ⟨r, hr, hresponded⟩
    obtain ⟨hrecord, haction⟩ := List.mem_filter.1 hr
    simp only [Bool.and_eq_true, Bool.not_eq_true', decide_eq_true_eq] at hresponded
    exact ⟨Return.of r, List.mem_map_of_mem hrecord, of_decide_eq_true haction, hresponded⟩
  · rintro ⟨x, hx, haction, herror, hid⟩
    obtain ⟨r, hr, rfl⟩ := List.mem_map.1 hx
    refine ⟨r, List.mem_filter.2 ⟨hr, decide_eq_true haction⟩, ?_⟩
    simp only [Bool.and_eq_true, Bool.not_eq_true', decide_eq_true_eq]
    exact ⟨herror, hid⟩

/-- What the report of a burst begins with. -/
private lemma exists_tail (h : s.Told e) {report : Report}
    (hreport : s.traffic.report? b = some report) :
    ∃ tail, report.records = report.root :: tail ∧ ∀ r ∈ tail, r.seq ≠ report.root.seq := by
  obtain ⟨phase, hphase, hover⟩ := Option.bind_eq_some_iff.1 hreport
  have hcourse := h.consistent.course b phase hphase
  rw [Traffic.eq_standing_of_report? hover] at hcourse
  obtain ⟨-, hhead, hrecords, -⟩ := hcourse.tracks
  obtain ⟨tail, hcons⟩ := List.head?_eq_some_iff.1 hhead
  have hsorted := hcourse.sorted
  rw [hcons, List.pairwise_cons] at hsorted
  exact ⟨tail, hrecords.trans hcons, fun r hr => (hsorted.1 r hr).ne'⟩

/-- The burst of a call that became a request began with it. -/
lemma rootRequest?_of_call (h : s.Told e) (hserved : s.Served limit)
    (hcall : s.calls[n]? = some ⟨b, some q⟩) {report : Report}
    (hreport : s.traffic.report? b = some report) : report.rootRequest? = some q := by
  obtain ⟨tail, hcons, -⟩ := exists_tail h hreport
  obtain ⟨args, rest, hroot⟩ := hserved.root n b q hcall
  rw [h.returns_of_report? hreport, hcons, List.map_cons] at hroot
  have hof := (List.cons.inj hroot).1
  have haction : report.root.action = requestAction := congrArg Return.action hof
  have houtput : report.root.output = named q := congrArg Return.output hof
  rw [Report.rootRequest?, if_pos haction, houtput, string?_named]

lemma of?_root_eq_iff {report : Report} :
    Sign.of? b (Return.of report.root) = some (.issued b id) ↔ report.rootRequest? = some id := by
  rw [Report.rootRequest?]
  constructor
  · intro h
    obtain ⟨haction, hid⟩ := Sign.of?_eq_issued h
    exact (if_pos haction).trans hid
  · intro h
    split_ifs at h with haction
    rw [Sign.of?, if_pos (show (Return.of report.root).action = requestAction from haction)]
    exact congrArg (Option.map _) h

/-- No later call of the burst issued the request that the burst began with. -/
private lemma ne_of_mem_tail (h : s.Told e) (hissues : s.Issues start) {x : Return}
    {tail : List Return} (hreturns : s.returns b = x :: tail) (hx : Sign.of? b x = some (.issued b q))
    {y : Return} (hy : y ∈ tail) (hissued : Sign.of? b y = some (.issued b id)) : id ≠ q := by
  have hnodup : ((s.returns b).filterMap fun x => (Sign.of? b x).bind Sign.issued?).Nodup := by
    rw [← List.filterMap_filterMap, ← h.told b]
    exact hissues.once.sublist (List.filter_sublist.filterMap _)
  rw [hreturns, List.filterMap_cons_some (by rw [hx]; rfl), List.nodup_cons] at hnodup
  rintro rfl
  exact hnodup.1 (List.mem_filterMap.2 ⟨y, hy, by rw [hissued]; rfl⟩)

/-- What a burst forgets when it is over is all it issued but the request it began with. -/
lemma mem_nestedRequests_iff (h : s.Told e) (hissues : s.Issues start) {report : Report}
    (hreport : s.traffic.report? b = some report) :
    id ∈ report.nestedRequests ↔ .issued b id ∈ s.signs ∧ report.rootRequest? ≠ some id := by
  obtain ⟨tail, hrecords, hseq⟩ := exists_tail h hreport
  have hreturns := h.returns_of_report? hreport
  rw [hrecords, List.map_cons] at hreturns
  rw [h.issued_mem_iff, hreturns, Report.nestedRequests, Report.recordsOf, hrecords]
  simp only [List.mem_filterMap, List.mem_filter, decide_eq_true_eq]
  constructor
  · rintro ⟨r, ⟨⟨hr, hrequest⟩, hne⟩, hid⟩
    rcases List.mem_cons.1 hr with rfl | hr
    · exact absurd rfl hne
    · have hmem : Return.of r ∈ tail.map Return.of := List.mem_map_of_mem hr
      have hissued : Sign.of? b (Return.of r) = some (.issued b id) := by
        simp [Sign.of?, Return.of, hrequest, hid]
      exact ⟨⟨Return.of r, List.mem_cons_of_mem _ hmem, hrequest, hid⟩, fun hroot =>
        ne_of_mem_tail h hissues hreturns (of?_root_eq_iff.2 hroot) hmem hissued rfl⟩
  · rintro ⟨⟨x, hx, hrequest, hid⟩, hne⟩
    rcases List.mem_cons.1 hx with rfl | hx
    · exact absurd ((if_pos hrequest).trans hid) hne
    · obtain ⟨r, hr, rfl⟩ := List.mem_map.1 hx
      exact ⟨r, ⟨⟨List.mem_cons_of_mem _ hr, hrequest⟩, hseq r hr⟩, hid⟩

/-- The burst of a call that became a request forgets all it issued but this request. -/
lemma mem_nestedRequests_of_call_iff (h : s.Told e) (hserved : s.Served limit)
    (hissues : s.Issues start) (hcall : s.calls[n]? = some ⟨b, some q⟩) {report : Report}
    (hreport : s.traffic.report? b = some report) :
    id ∈ report.nestedRequests ↔ .issued b id ∈ s.signs ∧ id ≠ q := by
  rw [mem_nestedRequests_iff h hissues hreport, rootRequest?_of_call h hserved hcall hreport,
    Ne, Option.some_inj, eq_comm]

end Server

end Synchrony.Http

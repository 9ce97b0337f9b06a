import Synchrony.Proofs.Http.Server

/-!
# What calls about requests returned

A sign that a request was issued or got its response stands for the return of a call, and the return
is recorded before the burst goes on. So what the signs say of a burst and what its records say of
requests are the same, in the same order (`Server.Told.told`), and the report of a burst that is over
tells everything it did to requests.
-/

namespace Synchrony.Http

open Requesting

/-- A call that returned. -/
structure Return where
  action : ActionRef
  args : Fields
  output : Fields

/-- The return that a record is of. -/
def Return.of (r : Record) : Return := ⟨r.action, r.input, r.output⟩

lemma addressee?_eq (args : Fields) : addressee? args = args.string? requestField := by
  rw [addressee?, KeyMap.string?]
  cases args.get? requestField with
  | none => rfl
  | some v => cases v <;> rfl

@[simp] lemma string?_named (id : String) : (named id).string? requestField = some id := by
  simp [named, KeyMap.string?, Value.asString?]

@[simp] lemma contains_named (id : String) : (named id).contains "error" = false := by
  rw [KeyMap.contains, named, KeyMap.singleton, KeyMap.get?_insert_of_ne _ _ (by decide)]
  rfl

@[simp] lemma contains_errorOutput (message : String) :
    (errorOutput message).contains "error" = true := by
  simp [errorOutput, KeyMap.contains]

namespace Sign

/-- The burst that did something to a request. -/
def burst? : Sign → Option String
  | issued b _ | responded b _ _ => some b
  | ended _ _ | timeUp _ => none

/-- What the return of a call says of requests. -/
def of? (b : String) (x : Return) : Option Sign :=
  if x.action = requestAction then (x.output.string? requestField).map (issued b)
  else if x.action = respondAction ∧ x.output.contains "error" = false then
    (x.args.string? requestField).map fun id => responded b id x.args
  else none

lemma burst?_of? {b : String} {x : Return} {sign : Sign} (h : of? b x = some sign) :
    sign.burst? = some b := by
  unfold of? at h
  split at h
  · obtain ⟨id, -, rfl⟩ := Option.map_eq_some_iff.1 h
    rfl
  · split at h
    · obtain ⟨id, -, rfl⟩ := Option.map_eq_some_iff.1 h
      rfl
    · cases h

@[simp] lemma of?_named (b : String) (args : Fields) (id : String) :
    of? b ⟨requestAction, args, named id⟩ = some (issued b id) := by
  simp [of?]

lemma of?_respond {b id : String} {args : Fields} (h : addressee? args = some id) :
    of? b ⟨respondAction, args, named id⟩ = some (responded b id args) := by
  rw [addressee?_eq] at h
  simp [of?, h, requestAction, respondAction]

@[simp] lemma of?_refused (b : String) (args : Fields) (message : String) :
    of? b ⟨respondAction, args, errorOutput message⟩ = none := by
  simp [of?, requestAction, respondAction]

lemma of?_of_ne {b : String} {x : Return} (hrequest : x.action ≠ requestAction)
    (hrespond : x.action ≠ respondAction) : of? b x = none := by
  simp [of?, hrequest, hrespond]

lemma of?_eq_issued {b : String} {x : Return} {id : String} (h : of? b x = some (issued b id)) :
    x.action = requestAction ∧ x.output.string? requestField = some id := by
  unfold of? at h
  split at h
  · rename_i haction
    obtain ⟨id', hid, heq⟩ := Option.map_eq_some_iff.1 h
    cases heq
    exact ⟨haction, hid⟩
  · split at h
    · obtain ⟨id', hid, heq⟩ := Option.map_eq_some_iff.1 h
      cases heq
    · cases h

lemma of?_eq_responded {b : String} {x : Return} {id : String} {args : Fields}
    (h : of? b x = some (responded b id args)) :
    x.action = respondAction ∧ x.output.contains "error" = false ∧
      x.args.string? requestField = some id := by
  unfold of? at h
  split at h
  · obtain ⟨id', hid, heq⟩ := Option.map_eq_some_iff.1 h
    cases heq
  · split at h
    · rename_i hrespond
      obtain ⟨id', hid, heq⟩ := Option.map_eq_some_iff.1 h
      cases heq
      exact ⟨hrespond.1, hrespond.2, hid⟩
    · cases h

end Sign

namespace Server

/-- The call about requests that returned and is not recorded yet. -/
def unrecorded (s : Server) (b : String) : List Return :=
  match s.traffic.called? b, s.underway.get? b with
  | some (action, args), some (.returned output) => [⟨action, args, output⟩]
  | _, _ => []

/-- The calls of a burst that returned, as far as the burst or somebody else can know. -/
def returns (s : Server) (b : String) : List Return :=
  (s.traffic.recordsOf b).map Return.of ++ s.unrecorded b

/-- What is under way belongs to this call. -/
def Belongs (called? : Option (ActionRef × Fields)) : Underway → Prop
  | .sending id args => called? = some (respondAction, args) ∧ addressee? args = some id
  | .returned _ => called?.isSome

/-- The signs say of every burst what its returns say. -/
structure Told (e : Engine Concept) (s : Server) : Prop where
  consistent : s.traffic.Consistent e
  pending : ∀ b u, s.underway.get? b = some u → Belongs (s.traffic.called? b) u
  told : ∀ b, s.signs.filter (·.burst? = some b) = (s.returns b).filterMap (Sign.of? b)

/-- One burst goes on, and the signs say what it returned since. -/
structure Goes (e : Engine Concept) (b : String) (s s' : Server) : Prop where
  consistent : s'.traffic.Consistent e
  affects : ∃ records, Traffic.Affects b records s.traffic s'.traffic
  pending : ∀ other u, s'.underway.get? other = some u → Belongs (s'.traffic.called? other) u
  returns : ∃ new, s'.returns b = s.returns b ++ new ∧
    s'.signs = s.signs ++ new.filterMap (Sign.of? b)
  others : ∀ other, other ≠ b → s'.returns other = s.returns other

variable {e : Engine Concept} {s s' : Server} {b : String}

/-! ### How returns change -/

lemma unrecorded_of_none (h : s.underway.get? b = none) : s.unrecorded b = [] := by
  simp [unrecorded, h]

lemma returns_congr (htraffic : s'.traffic = s.traffic)
    (hunderway : s'.underway.get? b = s.underway.get? b) : s'.returns b = s.returns b := by
  rw [returns, returns, unrecorded, unrecorded, htraffic, hunderway]

lemma returns_of_affects {id : String} {new : List Record}
    (h : Traffic.Affects id new s.traffic s'.traffic) (hb : b ≠ id)
    (hunderway : s'.underway.get? b = s.underway.get? b) : s'.returns b = s.returns b := by
  rw [returns, returns, unrecorded, unrecorded, h.recordsOf_of_ne hb, h.called?_of_ne hb, hunderway]

/-- A call about requests returns. -/
lemma returns_insert {action : ActionRef} {args output : Fields} (htraffic : s'.traffic = s.traffic)
    (hcalled : s.traffic.called? b = some (action, args))
    (hunderway : ∀ output, s.underway.get? b ≠ some (.returned output))
    (hreturned : s'.underway.get? b = some (.returned output)) :
    s'.returns b = s.returns b ++ [⟨action, args, output⟩] := by
  have hnone : s.unrecorded b = [] := by
    rw [unrecorded, hcalled]
    cases hu : s.underway.get? b with
    | none => rfl
    | some u =>
      cases u with
      | sending id args => rfl
      | returned output => exact absurd hu (hunderway output)
  rw [returns, returns, hnone, unrecorded, htraffic, hcalled, hreturned, List.append_nil]

/-- What returned is recorded. -/
lemma returns_of_record {r : Record} {action : ActionRef} {args output : Fields}
    (h : Traffic.Affects b [r] s.traffic s'.traffic)
    (hcalled : s.traffic.called? b = some (action, args))
    (hr : Return.of r = ⟨action, args, output⟩)
    (hreturned : s.underway.get? b = some (.returned output))
    (hunderway : s'.underway.get? b = none) : s'.returns b = s.returns b := by
  rw [returns, returns, unrecorded_of_none hunderway, unrecorded, hcalled, hreturned,
    h.recordsOf_self, List.map_append, List.map_singleton, hr, List.append_nil]

/-- A burst with nothing under way returned what it recorded. -/
lemma returns_of_idle {new : List Record} (h : Traffic.Affects b new s.traffic s'.traffic)
    (hidle : s.underway.get? b = none) (hidle' : s'.underway.get? b = none) :
    s'.returns b = s.returns b ++ new.map Return.of := by
  rw [returns, returns, unrecorded_of_none hidle, unrecorded_of_none hidle', h.recordsOf_self,
    List.map_append, List.append_nil, List.append_nil]

/-! ### Every step keeps signs and returns together -/

lemma Goes.told (h : s.Told e) (hgoes : Goes e b s s') : s'.Told e := by
  refine ⟨hgoes.consistent, hgoes.pending, fun other => ?_⟩
  obtain ⟨new, hself, hsigns⟩ := hgoes.returns
  have hburst : ∀ sign ∈ new.filterMap (Sign.of? b), sign.burst? = some b := fun sign hsign => by
    obtain ⟨x, -, hx⟩ := List.mem_filterMap.1 hsign
    exact Sign.burst?_of? hx
  rw [hsigns, List.filter_append]
  by_cases heq : other = b
  · rw [heq, hself, List.filterMap_append, h.told, List.filter_eq_self.2 fun sign hsign =>
      decide_eq_true (hburst sign hsign)]
  · have hnone : (new.filterMap (Sign.of? b)).filter (·.burst? = some other) = [] :=
      List.filter_eq_nil_iff.2 fun sign hsign hother => heq
        (Option.some.inj ((of_decide_eq_true hother).symm.trans (hburst sign hsign)))
    rw [hnone, List.append_nil, hgoes.others other heq, h.told]

/-- A sign that is not of a burst. -/
lemma told_of_sign {sign : Sign} (h : s.Told e) (hsign : sign.burst? = none)
    (hsigns : s'.signs = s.signs ++ [sign]) (hreturns : s'.returns = s.returns) (other : String) :
    s'.signs.filter (·.burst? = some other) = (s'.returns other).filterMap (Sign.of? other) := by
  rw [hsigns, hreturns, List.filter_append, h.told]
  simp [hsign]

namespace Told

lemma idle (e : Engine Concept) (slots : Slots) : (Server.idle e slots).Told e := by
  refine ⟨Traffic.consistent_idle e, fun b u hu => ?_, fun b => rfl⟩
  simp [Server.idle] at hu

/-- A burst that waits for no call has nothing under way. -/
lemma underway_eq_none (h : s.Told e) (hcalled : s.traffic.called? b = none) :
    s.underway.get? b = none := by
  by_contra hne
  obtain ⟨u, hu⟩ := Option.ne_none_iff_exists'.1 hne
  have hbelongs := h.pending b u hu
  rw [hcalled] at hbelongs
  cases u with
  | sending id args => cases hbelongs.1
  | returned output => cases hbelongs

/-- A burst that is not there returned nothing. -/
lemma returns_eq_nil (h : s.Told e) (hgone : s.traffic.bursts.get? b = none) :
    s.returns b = [] := by
  have hcalled : s.traffic.called? b = none := by
    rw [Traffic.called?, hgone]
    rfl
  rw [returns, Traffic.recordsOf_of_fresh h.consistent hgone,
    unrecorded_of_none (h.underway_eq_none hcalled)]
  rfl

/-- A burst that is over returned what its report says. -/
lemma returns_of_report? (h : s.Told e) {report : Report}
    (hreport : s.traffic.report? b = some report) : s.returns b = report.records.map Return.of := by
  obtain ⟨phase, hphase, hover⟩ := Option.bind_eq_some_iff.1 hreport
  have htracks := (h.consistent.course b phase hphase).tracks
  rw [Traffic.eq_standing_of_report? hover] at htracks
  rw [returns, unrecorded_of_none (h.underway_eq_none (Traffic.called?_eq_none_of_report? hreport)),
    List.append_nil, htracks.2.2.1]

/-- Something comes of the call that a burst waits for. -/
private lemma goes_of_insert (h : s.Told e) {call : ActionRef × Fields} {u : Underway}
    (slots : Slots) (used : List String) (new : List Return) {signs : List Sign}
    (hcalled : s.traffic.called? b = some call) (hu : Belongs (s.traffic.called? b) u)
    (hself : ∀ s' : Server, s'.traffic = s.traffic → s'.underway = s.underway.insert b u →
      s'.returns b = s.returns b ++ new)
    (hsigns : new.filterMap (Sign.of? b) = signs) :
    Goes e b s { s with
      slots
      used
      underway := s.underway.insert b u
      signs := s.signs ++ signs } := by
  refine ⟨h.consistent, ⟨[], Traffic.affects_refl_of_called? hcalled⟩, fun other v hv => ?_,
    ⟨new, hself _ rfl rfl, by rw [hsigns]⟩,
    fun other hother => returns_congr rfl (KeyMap.get?_insert_of_ne _ _ hother)⟩
  change (s.underway.insert b u).get? other = some v at hv
  rw [KeyMap.get?_insert] at hv
  split at hv
  · rename_i heq
    cases hv
    rwa [heq]
  · exact h.pending other v hv

/-- A call about requests returns with this output. -/
private lemma goes_of_return (h : s.Told e) {action : ActionRef} {args output : Fields}
    {signs : List Sign} (slots : Slots) (used : List String)
    (hcalled : s.traffic.called? b = some (action, args))
    (hunderway : ∀ output, s.underway.get? b ≠ some (.returned output))
    (hsigns : (Sign.of? b ⟨action, args, output⟩).toList = signs) :
    Goes e b s { s with
      slots
      used
      underway := s.underway.insert b (.returned output)
      signs := s.signs ++ signs } := by
  refine h.goes_of_insert slots used [⟨action, args, output⟩] hcalled (by rw [hcalled]; rfl)
    (fun s' htraffic hinsert => returns_insert htraffic hcalled hunderway ?_) ?_
  · rw [hinsert, KeyMap.get?_insert_self]
  · rw [← hsigns]
    cases hof : Sign.of? b ⟨action, args, output⟩ <;> simp [hof]

/-- A burst that is left with nothing under way takes a step on the engine. -/
private lemma goes_of_affects (h : s.Told e) {records : List Record} (new : List Return)
    (hconsistent : s'.traffic.Consistent e)
    (haffects : Traffic.Affects b records s.traffic s'.traffic)
    (hidle : s'.underway.get? b = none)
    (hothers : ∀ other, other ≠ b → s'.underway.get? other = s.underway.get? other)
    (hself : s'.returns b = s.returns b ++ new)
    (hsigns : s'.signs = s.signs ++ new.filterMap (Sign.of? b)) : Goes e b s s' := by
  refine ⟨hconsistent, ⟨records, haffects⟩, fun other v hv => ?_, ⟨new, hself, hsigns⟩,
    fun other hother => returns_of_affects haffects hother (hothers other hother)⟩
  have hne : other ≠ b := by
    rintro rfl
    rw [hidle] at hv
    cases hv
  rw [hothers other hne] at hv
  rw [haffects.called?_of_ne hne]
  exact h.pending other v hv

lemma goes_of_advance (h : s.Told e) (hstep : Advance b s s') : Goes e b s s' := by
  have hnothing (hidle : s.underway.get? b = none) (output : Fields) :
      s.underway.get? b ≠ some (.returned output) := by simp [hidle]
  cases hstep with
  | request hcalled hidle hfresh => exact h.goes_of_return _ _ hcalled (hnothing hidle) (by simp)
  | @unaddressed args hcalled hidle haddressee =>
    simpa using h.goes_of_return s.slots s.used hcalled (hnothing hidle)
      (congrArg Option.toList (Sign.of?_refused b args RespondError.missingRequest.message))
  | @refused args id error hcalled hidle haddressee htake =>
    simpa using h.goes_of_return s.slots s.used hcalled (hnothing hidle)
      (congrArg Option.toList (Sign.of?_refused b args error.message))
  | @took args id slots hcalled hidle haddressee htake =>
    have hgoes := h.goes_of_insert (u := .sending id args) slots s.used [] hcalled ⟨hcalled, haddressee⟩ (fun s' htraffic hinsert => by
        rw [returns, returns, unrecorded_of_none hidle, unrecorded, hinsert,
          KeyMap.get?_insert_self, htraffic, hcalled]
        exact (List.append_nil _).symm) rfl
    simpa using hgoes
  | @sent args id hsending =>
    obtain ⟨hcalled, haddressee⟩ := h.pending b _ hsending
    exact h.goes_of_return _ _ hcalled (by simp [hsending]) (by rw [Sign.of?_respond haddressee]; rfl)
  | @returned output time traffic hreturned htraffic =>
    obtain ⟨action, args, r, hcalled, -, rfl, rfl, rfl, haffects⟩ :=
      Traffic.affects_of_answer h.consistent htraffic
    refine h.goes_of_affects [] (h.consistent.step htraffic) haffects
      (KeyMap.get?_erase_self ..) (fun other hother => ?_) ?_ (List.append_nil _).symm
    · exact (KeyMap.get?_erase ..).trans (if_neg hother)
    · rw [List.append_nil]
      exact returns_of_record haffects hcalled rfl hreturned (KeyMap.get?_erase_self ..)
  | @answered action args output time traffic hcalled hidle hother htraffic =>
    obtain ⟨action', args', r, hcalled', -, rfl, rfl, rfl, haffects⟩ :=
      Traffic.affects_of_answer h.consistent htraffic
    obtain ⟨rfl, rfl⟩ := Prod.mk.inj (Option.some.inj (hcalled.symm.trans hcalled'))
    have hnew : Sign.of? b (Return.of r) = none := Sign.of?_of_ne hother.1 hother.2
    exact h.goes_of_affects _ (h.consistent.step htraffic) haffects hidle (fun _ _ => rfl)
      (returns_of_idle haffects hidle hidle) (by simp [hnew])
  | goes hmove htraffic =>
    obtain ⟨hcalled, haffects⟩ := Traffic.affects_of_go h.consistent hmove htraffic
    have hidle := h.underway_eq_none hcalled
    exact h.goes_of_affects _ (h.consistent.step htraffic) haffects hidle (fun _ _ => rfl)
      (returns_of_idle haffects hidle hidle) (List.append_nil _).symm

/-- Only a burst that is there takes a step. -/
lemma known_of_advance (h : s.Told e) (hstep : Advance b s s') :
    ∃ phase, s.traffic.bursts.get? b = some phase := by
  have hcalled {call : ActionRef × Fields} (hcall : s.traffic.called? b = some call) :
      ∃ phase, s.traffic.bursts.get? b = some phase := by
    obtain ⟨phase, hphase, -⟩ := Option.bind_eq_some_iff.1 hcall
    exact ⟨phase, hphase⟩
  have hmoved {move : Move} {traffic : Traffic Concept}
      (htraffic : s.traffic.step? (.move b move) = some traffic) :
      ∃ phase, s.traffic.bursts.get? b = some phase := by
    obtain ⟨phase, hphase, -⟩ := Option.bind_eq_some_iff.1 htraffic
    exact ⟨phase, hphase⟩
  cases hstep with
  | request hcall hidle hfresh => exact hcalled hcall
  | unaddressed hcall hidle haddressee => exact hcalled hcall
  | refused hcall hidle haddressee htake => exact hcalled hcall
  | took hcall hidle haddressee htake => exact hcalled hcall
  | sent hsending => exact hcalled (h.pending b _ hsending).1
  | returned hreturned htraffic => exact hmoved htraffic
  | answered hcall hidle hother htraffic => exact hmoved htraffic
  | goes hmove htraffic => exact hmoved htraffic

/-! ### New bursts -/

/-- A new burst has nothing under way. -/
lemma of_begin (h : s.Told e) {action : ActionRef} {input : Fields} {opening : Traffic Concept}
    (hbegin : s.traffic.step? (.begin b action input) = some opening) :
    s.underway.get? b = none ∧ Traffic.Affects b [] s.traffic opening := by
  obtain ⟨hgone, -, haffects⟩ := Traffic.affects_of_begin hbegin
  refine ⟨h.underway_eq_none ?_, haffects⟩
  rw [Traffic.called?, hgone]
  rfl

lemma goes_of_begin (h : s.Told e) {action : ActionRef} {input : Fields} {opening : Traffic Concept}
    (hbegin : s.traffic.step? (.begin b action input) = some opening)
    (htraffic : s'.traffic = opening) (hunderway : s'.underway = s.underway)
    (hsigns : s'.signs = s.signs) : Goes e b s s' := by
  subst htraffic
  obtain ⟨hidle, haffects⟩ := h.of_begin hbegin
  rw [← hunderway] at hidle
  refine h.goes_of_affects _ (h.consistent.step hbegin) haffects hidle (fun _ _ => by rw [hunderway])
    (returns_of_idle haffects (hunderway ▸ hidle) hidle) ?_
  rw [hsigns]
  exact (List.append_nil _).symm

/-- A burst that begins with a request has recorded that it was issued. -/
lemma goes_of_routed (h : s.Told e) {q : String} {input : Fields} {time : Timestamp}
    {opening traffic : Traffic Concept}
    (hopening : s.traffic.step? (.begin b requestAction input) = some opening)
    (hanswer : opening.step? (.move b (.answer (named q) time)) = some traffic)
    (htraffic : s'.traffic = traffic) (hunderway : s'.underway = s.underway)
    (hsigns : s'.signs = s.signs ++ [.issued b q]) :
    Goes e b s s' ∧ s'.returns b = [⟨requestAction, input, named q⟩] := by
  subst htraffic
  obtain ⟨hgone, hcalled, haffects⟩ := Traffic.affects_of_begin hopening
  obtain ⟨action, args, r, hcalled', -, rfl, rfl, houtput, haffects'⟩ :=
    Traffic.affects_of_answer (h.consistent.step hopening) hanswer
  obtain ⟨haction, hinput⟩ := Prod.mk.inj (Option.some.inj (hcalled.symm.trans hcalled'))
  have hr : Return.of r = ⟨requestAction, input, named q⟩ := by
    rw [Return.of, haction, hinput, houtput]
  have hidle : s'.underway.get? b = none := by rw [hunderway, (h.of_begin hopening).1]
  have hreturns := returns_of_idle (haffects.trans haffects') (hunderway ▸ hidle) hidle
  refine ⟨h.goes_of_affects _ ((h.consistent.step hopening).step hanswer) (haffects.trans haffects')
    hidle (fun _ _ => by rw [hunderway]) hreturns ?_, ?_⟩
  · rw [hsigns]
    simp [hr]
  · rw [hreturns, h.returns_eq_nil hgone]
    simp [hr]

theorem step {config : RequestingConfig} (h : s.Told e) (hstep : Step config s s') : s'.Told e := by
  cases hstep with
  | direct hbody haction htraffic =>
    refine Goes.told h (h.goes_of_begin htraffic ?_ ?_ ?_) <;> rfl
  | routed hbody haction hopening hfresh htraffic =>
    refine Goes.told h (h.goes_of_routed hopening htraffic ?_ ?_ ?_).1 <;> rfl
  | advance hgoes hadvance => exact (h.goes_of_advance hadvance).told h
  | finish hcall hgoing hreport =>
    exact ⟨h.consistent, h.pending, told_of_sign h rfl rfl rfl⟩
  | reply hcall hstage hreport =>
    exact ⟨h.consistent, h.pending, told_of_sign h rfl rfl rfl⟩
  | poll hcall hlook => exact ⟨h.consistent, h.pending, h.told⟩
  | timer hcall hopen hrunning =>
    exact ⟨h.consistent, h.pending, told_of_sign h rfl rfl rfl⟩
  | drop hcall hstage => exact ⟨h.consistent, h.pending, h.told⟩
  | hangUp hcall hstage => exact ⟨h.consistent, h.pending, h.told⟩

end Told

end Server

end Synchrony.Http

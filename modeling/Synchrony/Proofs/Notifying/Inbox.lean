import Synchrony.Proofs.Notifying.Deliveries
import Synchrony.Proofs.Value.Sameness

/-!
# Inboxes

Whatever calls the concept answered, and whatever others did meanwhile in other collections, an
inbox shows what the calls say it has to (`Notifying.inbox_faithful`). After each call the stored
notifications are the documents of the calls that sent them, each as the calls after it left it
(`Notifying.Holds`); a call that fails changes nothing.
-/

namespace Synchrony

namespace Notifying

/-! ### Runs -/

/-- Calls that are answered one after the other, from the resources `r₀` on. In between others may
do what is apart from the notifications. -/
inductive Serves (store : String) (r₀ : Resources) : List Turn → Resources → Prop where
  | start : Serves store r₀ [] r₀
  | call {turns : List Turn} {r r' : Resources} {action : String} {input : Fields}
      {result : Except ConceptError Fields} (h : Serves store r₀ turns r)
      (hrun : ((concept store).perform action input).run r = (.finished result, r')) :
      Serves store r₀ (turns ++ [⟨action, input, r, result, r'⟩]) r'
  | apart {turns : List Turn} {r r' : Resources} (h : Serves store r₀ turns r)
      (hr : r.Apart store notifications r') : Serves store r₀ turns r'

/-- What the calls sent can be read back from a disk: its numbers can, and it is nested no deeper
than the texts that can be read. -/
def SendsExact (turns : List Turn) : Prop :=
  ∀ t ∈ turns, t.delivers = true → ∀ e ∈ t.input.entries, Value.Exact 126 e.2

/-- What the store and the calls so far have to do with each other. -/
structure Holds (store : String) (turns : List Turn) (r : Resources) : Prop where
  lists : r.Lists store notifications ((deliveries turns).map fun d => docAfter d.1 d.2)
  results : ∀ d ∈ deliveries turns, d.1.result = .ok (named d.1.nextId)
  times : (deliveries turns).Pairwise fun d e => d.1.time.nanos < e.1.time.nanos
  past : ∀ d ∈ deliveries turns, d.1.before.readings < r.readings

variable {store : String} {turns : List Turn} {r r' r₀ : Resources} {t : Turn}
  {action id : String} {input : Fields} {result : Except ConceptError Fields}

lemma marks_of_ne (h : t.action ≠ "markRead") (id : String) : t.marks id = false := by
  simp [Turn.marks, h]

lemma fails_of_named (h : t.result = .ok (named id)) : t.fails = false := by
  rw [Turn.fails, h]
  rfl

lemma delivers_of_ne (h : t.action ≠ "notify") : t.delivers = false := by
  simp [Turn.delivers, h]

/-- A call that was not to mark what is there leaves the documents as they are. -/
lemma map_docAfter_of_not_marks (hmarks : ∀ d ∈ deliveries turns, t.marks d.1.nextId = false) :
    (deliveries turns).map (fun d => docAfter d.1 (d.2 ++ [t])) =
      (deliveries turns).map fun d => docAfter d.1 d.2 :=
  List.map_congr_left fun d hd => by simp [docAfter_concat, hmarks d hd]

/-- What holds of the calls that sent a notification so far, and of the next one if it sends one. -/
lemma forall_deliveries_concat {P : Turn → Prop} (h : ∀ d ∈ deliveries turns, P d.1)
    (ht : t.delivers = true → P t) : ∀ d ∈ deliveries (turns ++ [t]), P d.1 := by
  intro d hd
  rw [deliveries_concat] at hd
  rcases List.mem_append.1 hd with hd | hd
  · obtain ⟨e, he, rfl⟩ := List.mem_map.1 hd
    exact h e he
  · split at hd
    · rename_i hdelivers
      obtain rfl := List.mem_singleton.1 hd
      exact ht hdelivers
    · cases hd

namespace Holds

lemma start (h : ((r.storeNamed store).perform "" (.find notifications .empty)).1 =
    .ok ([] : List Fields)) : Holds store [] r :=
  ⟨(Store.keeps_nil h).lists, nofun, .nil, nofun⟩

lemma apart (h : Holds store turns r) (hr : r.Apart store notifications r') :
    Holds store turns r' :=
  ⟨h.lists.of_apart hr, h.results, h.times,
    fun d hd => Nat.lt_of_lt_of_le (h.past d hd) hr.readings_le⟩

/-- What has to be shown of one call more. -/
lemma concat (h : Holds store turns t.before)
    (hlists : t.after.Lists store notifications
      ((deliveries (turns ++ [t])).map fun d => docAfter d.1 d.2))
    (hreadings : t.before.readings ≤ t.after.readings)
    (hdelivers : t.delivers = true →
      t.result = .ok (named t.nextId) ∧ t.before.readings < t.after.readings) :
    Holds store (turns ++ [t]) t.after where
  lists := hlists
  results := forall_deliveries_concat (P := fun u => u.result = .ok (named u.nextId)) h.results
    fun ht => (hdelivers ht).1
  times := by
    rw [deliveries_concat, List.pairwise_append]
    refine ⟨List.pairwise_map.2 h.times, ?_, fun d hd e he => ?_⟩
    · split
      · exact List.pairwise_singleton _ _
      · exact .nil
    · obtain ⟨d, hold, rfl⟩ := List.mem_map.1 hd
      have hpast := h.past d hold
      split at he
      · obtain rfl := List.mem_singleton.1 he
        change Resources.epoch + d.1.before.readings + 1 < Resources.epoch + t.before.readings + 1
        omega
      · cases he
  past := forall_deliveries_concat (P := fun u => u.before.readings < t.after.readings)
    (fun d hd => Nat.lt_of_lt_of_le (h.past d hd) hreadings) fun ht => (hdelivers ht).2

/-- A call that changes nothing, sends nothing and was not to mark what is there. -/
lemma quiet (h : Holds store turns t.before) (hsame : t.before.Untouched t.after)
    (hreadings : t.after.readings = t.before.readings) (hdelivers : t.delivers = false)
    (hmarks : ∀ d ∈ deliveries turns, t.marks d.1.nextId = false) :
    Holds store (turns ++ [t]) t.after := by
  refine h.concat ?_ hreadings.ge fun ht => ?_
  · rw [deliveries_concat, hdelivers, if_neg (by decide), List.append_nil, List.map_map]
    exact (map_docAfter_of_not_marks hmarks ▸ h.lists).of_untouched hsame
  · rw [hdelivers] at ht
    cases ht

/-- A call that fails before it does anything. -/
lemma refused (h : Holds store turns t.before) {w : Work} {e : ConceptError}
    (hrefused : w.run t.before = (.finished (.error e), t.before))
    (hrun : w.run t.before = (.finished t.result, t.after))
    (hmarks : ∀ d ∈ deliveries turns, t.marks d.1.nextId = false) :
    Holds store (turns ++ [t]) t.after := by
  obtain ⟨hresult, hafter⟩ := Work.eq_of_run hrefused hrun
  refine h.quiet ?_ (by rw [hafter]) ?_ hmarks
  · rw [← hafter]
    exact ⟨rfl, fun _ => rfl⟩
  · rw [Turn.delivers, Turn.fails, ← hresult]
    exact Bool.and_false _

lemma notify (h : Holds store turns t.before) (haction : t.action = "notify")
    (hrun : (Notifying.notify store t.input).run t.before = (.finished t.result, t.after))
    (hexact : (t.before.storeNamed store).isDurable = true → SendsExact (turns ++ [t])) :
    Holds store (turns ++ [t]) t.after := by
  have hmarks (d : Turn × List Turn) (_ : d ∈ deliveries turns) : t.marks d.1.nextId = false :=
    marks_of_ne (by simp [haction]) _
  cases hrecipient : Arguments.name t.input "recipient" with
  | error e => exact h.refused (run_notify_of_error hrecipient) hrun hmarks
  | ok recipient =>
    cases htopic : Arguments.name t.input "topic" with
    | error e => exact h.refused (run_notify_of_topic hrecipient htopic) hrun hmarks
    | ok topic =>
      obtain ⟨r₁, hanswer, hreadings, hlists⟩ := run_notify h.lists hrecipient htopic
      obtain ⟨hresult, rfl⟩ := Work.eq_of_run hanswer hrun
      have hfails := fails_of_named hresult.symm
      have hdelivers : t.delivers = true := by simp [Turn.delivers, haction, hfails]
      have hlegible (hdurable : (t.before.storeNamed store).isDurable = true) :
          Store.Legible (docOf t.input t.before) := by
        rw [← docAfter_nil]
        exact legible_docAfter (hexact hdurable t (by simp) hdelivers) []
      refine h.concat ?_ (by omega) fun _ => ⟨hresult.symm, by omega⟩
      rw [deliveries_concat, hdelivers, if_pos rfl, List.map_append, List.map_map]
      have hdocs := hlists hlegible
      rw [← map_docAfter_of_not_marks hmarks, ← docAfter_nil] at hdocs
      exact hdocs

lemma markRead (h : Holds store turns t.before) (haction : t.action = "markRead")
    (hrun : (Notifying.markRead store t.input).run t.before = (.finished t.result, t.after))
    (hexact : (t.before.storeNamed store).isDurable = true → SendsExact (turns ++ [t])) :
    Holds store (turns ++ [t]) t.after := by
  have hdelivers : t.delivers = false := delivers_of_ne (by simp [haction])
  have hmarks (other : String) :
      t.marks other = decide (t.input.string? "notification" = some other) := by
    simp [Turn.marks, haction]
  cases hid : Arguments.text t.input "notification" with
  | error e =>
    refine h.refused (run_markRead_of_error hid) hrun fun d _ => ?_
    rw [hmarks, decide_eq_false_iff_not, ← Arguments.text_eq_ok_iff, hid]
    exact nofun
  | ok id =>
    have hmarks' (d : Turn × List Turn) :
        t.marks d.1.nextId = Store.hasId (docAfter d.1 d.2) id := by
      rw [hmarks, Arguments.text_eq_ok_iff.1 hid]
      simp [Store.hasId, KeyMap.string?, Value.asString?, eq_comm]
    cases hfound : ((deliveries turns).map fun d => docAfter d.1 d.2).find? (Store.hasId · id) with
    | none =>
      obtain ⟨r₁, hanswer, hsame, hreadings⟩ := run_markRead_of_none h.lists hid hfound
      obtain ⟨-, rfl⟩ := Work.eq_of_run hanswer hrun
      refine h.quiet hsame hreadings hdelivers fun d hd => ?_
      rw [hmarks' d]
      simpa using List.find?_eq_none.1 hfound _ (List.mem_map_of_mem hd)
    | some doc =>
      have hlegible (hdurable : (t.before.storeNamed store).isDurable = true) :
          Store.Legible (Store.patched doc readPatch) := by
        -- what is found is the document of a call, and the patch makes it what it is after this one
        obtain ⟨d, hd, rfl⟩ := List.mem_map.1 (List.mem_of_find?_eq_some hfound)
        have hsent := fst_mem_of_mem_deliveries hd
        have hexact := hexact hdurable d.1 (List.mem_append_left _ hsent.1) hsent.2
        have hlater := docAfter_concat d.1 d.2 t
        rw [hmarks' d, if_pos (List.find?_some hfound)] at hlater
        exact hlater ▸ legible_docAfter hexact _
      obtain ⟨r₁, hanswer, hlists, hreadings⟩ :=
        run_markRead_of_some h.lists hid hfound hlegible
      obtain ⟨-, rfl⟩ := Work.eq_of_run hanswer hrun
      refine h.concat ?_ hreadings.ge (by simp [hdelivers])
      rw [deliveries_concat, hdelivers, if_neg (by decide), List.append_nil, List.map_map]
      rw [List.map_map] at hlists
      have hdocs : (deliveries turns).map (fun d => docAfter d.1 (d.2 ++ [t])) =
          (deliveries turns).map fun d => Store.patchedAt id readPatch (docAfter d.1 d.2) :=
        List.map_congr_left fun d _ => by rw [docAfter_concat, hmarks' d, Store.patchedAt]
      exact hdocs ▸ hlists

lemma getNotifications (h : Holds store turns t.before) (haction : t.action = "_getNotifications")
    (hrun : (Notifying.getNotifications store t.input).run t.before =
      (.finished t.result, t.after)) : Holds store (turns ++ [t]) t.after := by
  have hmarks (d : Turn × List Turn) (_ : d ∈ deliveries turns) : t.marks d.1.nextId = false :=
    marks_of_ne (by simp [haction]) _
  cases hrecipient : Arguments.text t.input "recipient" with
  | error e => exact h.refused (run_getNotifications_of_error hrecipient) hrun hmarks
  | ok recipient =>
    obtain ⟨found, r₁, hanswer, -, hsame, hreadings⟩ := run_getNotifications h.lists hrecipient
    obtain ⟨-, rfl⟩ := Work.eq_of_run hanswer hrun
    exact h.quiet hsame hreadings (delivers_of_ne (by simp [haction])) hmarks

/-- A call of any action. -/
lemma call (h : Holds store turns t.before)
    (hrun : ((concept store).perform t.action t.input).run t.before = (.finished t.result, t.after))
    (hexact : (t.before.storeNamed store).isDurable = true → SendsExact (turns ++ [t])) :
    Holds store (turns ++ [t]) t.after := by
  by_cases hnotify : t.action = "notify"
  · rw [hnotify] at hrun
    exact h.notify hnotify hrun hexact
  by_cases hmark : t.action = "markRead"
  · rw [hmark] at hrun
    exact h.markRead hmark hrun hexact
  by_cases hget : t.action = "_getNotifications"
  · rw [hget] at hrun
    exact h.getNotifications hget hrun
  · rw [perform_eq_fail hnotify hmark hget] at hrun
    exact h.refused rfl hrun fun d _ => marks_of_ne hmark _

end Holds

/-- The store that the concept uses stays of its kind. -/
lemma Serves.isDurable_eq (h : Serves store r₀ turns r) :
    (r.storeNamed store).isDurable = (r₀.storeNamed store).isDurable := by
  induction h with
  | start => rfl
  | @call turns r r' action input result h hrun ih =>
    have hkind := r.isDurable_run ((concept store).perform action input) store
    rw [hrun] at hkind
    exact hkind.trans ih
  | apart h hr ih => exact (hr.isDurable_eq store).trans ih

/-- The calls that failed changed nothing. -/
theorem Serves.untouched (h : Serves store r₀ turns r) :
    ∀ t ∈ turns, t.fails = true → t.before.Untouched t.after := by
  induction h with
  | start => exact nofun
  | call h hrun ih =>
    intro t ht hfails
    rcases List.mem_append.1 ht with ht | ht
    · exact ih t ht hfails
    · obtain rfl := List.mem_singleton.1 ht
      exact untouched_of_fails hrun hfails
  | apart h hr ih => exact ih

/-- After any calls the stored notifications are those that the calls sent. -/
theorem Serves.holds (h : Serves store r₀ turns r)
    (hempty : ((r₀.storeNamed store).perform "" (.find notifications .empty)).1 =
      .ok ([] : List Fields))
    (hexact : (r₀.storeNamed store).isDurable = true → SendsExact turns) :
    Holds store turns r := by
  induction h with
  | start => exact .start hempty
  | @call turns r r' action input result h hrun ih =>
    have hbefore := ih fun hdurable u hu => hexact hdurable u (List.mem_append_left _ hu)
    exact @Holds.call store turns ⟨action, input, r, result, r'⟩ hbefore hrun fun hdurable =>
      hexact (h.isDurable_eq ▸ hdurable)
  | apart h hr ih => exact (ih hexact).apart hr

/-- Every action comes to a result. -/
lemma ends_perform (store action : String) (input : Fields) :
    ((concept store).perform action input).Ends fun _ => True := by
  simp only [concept]
  split
  · exact .given (fun _ => trivial) fun _ => .given (fun _ => trivial) fun _ => .clock fun _ =>
      .onStore (fun _ => trivial) fun _ => .done trivial
  · refine .given (fun _ => trivial) fun id => .onStore (fun _ => trivial) fun found => ?_
    rcases found with _ | _
    · exact .done trivial
    · exact .onStore (fun _ => trivial) fun _ => .done trivial
  · exact .given (fun _ => trivial) fun _ => .onStore (fun _ => trivial) fun _ => .done trivial
  · exact .done trivial

/-- Every call is answered. -/
theorem Serves.exists_call (h : Serves store r₀ turns r) (action : String) (input : Fields) :
    ∃ t : Turn, t.action = action ∧ t.input = input ∧ t.before = r ∧
      Serves store r₀ (turns ++ [t]) t.after := by
  obtain ⟨result, r', hrun, -⟩ := (ends_perform store action input).exists_run r fun _ _ => none
  exact ⟨⟨action, input, r, result, r'⟩, rfl, rfl, rfl, h.call hrun⟩

/-! ### What an inbox shows -/

/-- The calls so far that sent a notification to a recipient, each with the calls after it. -/
def sentTo (recipient : String) (turns : List Turn) : List (Turn × List Turn) :=
  (deliveries turns).filter fun d => d.1.input.string? "recipient" = some recipient

/-- What a search for the notifications of a recipient finds. -/
lemma filter_docAfter (recipient : String) (turns : List Turn) :
    ((deliveries turns).map fun d => docAfter d.1 d.2).filter
        (·.matchesFilter (KeyMap.singleton "recipient" (.str recipient))) =
      (sentTo recipient turns).map fun d => docAfter d.1 d.2 := by
  rw [List.filter_map, sentTo]
  refine congrArg _ (List.filter_congr fun d _ => ?_)
  rw [Function.comp_apply, KeyMap.matchesFilter_singleton, KeyMap.string?,
    get?_docAfter (by decide), KeyMap.string?]

/-- The texts of the times of the calls sort as the times. -/
def TextsSort (turns : List Turn) : Prop :=
  ∀ t ∈ turns, ∀ u ∈ turns, t.time.nanos < u.time.nanos → t.time.offsetText < u.time.offsetText

/-- The times in which notifications were sent are in order, and their texts are. -/
lemma Holds.pairwise_sentTo (h : Holds store turns r) (htexts : TextsSort turns)
    (recipient : String) :
    (sentTo recipient turns).Pairwise fun d e => d.1.time.offsetText < e.1.time.offsetText := by
  refine (h.times.filter _).imp_of_mem fun {d e} hd he hlt => ?_
  have hd := fst_mem_of_mem_deliveries (List.mem_of_mem_filter hd)
  have he := fst_mem_of_mem_deliveries (List.mem_of_mem_filter he)
  exact htexts d.1 hd.1 e.1 he.1 hlt

/--
The inbox of any recipient is the history of what was sent to the recipient: a query shows one entry
for each call that sent a notification there, in the order of the calls, and changes nothing.
-/
def ShowsHistory (store : String) (turns : List Turn) (r : Resources) : Prop :=
  ∀ input recipient, Arguments.text input "recipient" = .ok recipient →
    ∃ entries r', ((concept store).perform "_getNotifications" input).run r =
        (.finished (.ok (inboxOutput entries)), r') ∧
      r.Untouched r' ∧
      List.Forall₂ (fun entry d => Shows entry d.1 d.2) entries (sentTo recipient turns)

lemma Holds.showsHistory (h : Holds store turns r) (htexts : TextsSort turns) :
    ShowsHistory store turns r := by
  intro input recipient hrecipient
  obtain ⟨found, r', hanswer, hperm, hsame, -⟩ := run_getNotifications h.lists hrecipient
  rw [filter_docAfter] at hperm
  have hsorted : found.mergeSort timeLe = (sentTo recipient turns).map fun d => docAfter d.1 d.2 :=
    mergeSort_eq hperm (List.pairwise_map.2
      ((h.pairwise_sentTo htexts recipient).imp fun hlt => timeLe_docAfter hlt _ _))
  refine ⟨(found.mergeSort timeLe).map view, r', hanswer, hsame, ?_⟩
  rw [hsorted, List.map_map, List.forall₂_map_left_iff, List.forall₂_same]
  exact fun d hd => shows_view (h.results d (List.mem_of_mem_filter hd)) d.2

/--
An inbox is a faithful history. Whatever calls the concept answered, those that failed changed
nothing. From an empty collection on, the inboxes show what was sent, with everything it was sent
with and nothing forged, if the texts of times sort as the times; a store on disk must be able to
read back what was sent, one in memory need not.
-/
theorem inbox_faithful (h : Serves store r₀ turns r) :
    (∀ t ∈ turns, t.fails = true → t.before.Untouched t.after) ∧
      (((r₀.storeNamed store).perform "" (.find notifications .empty)).1 =
          .ok ([] : List Fields) →
        TextsSort turns → ((r₀.storeNamed store).isDurable = true → SendsExact turns) →
        ShowsHistory store turns r) :=
  ⟨h.untouched, fun hempty htexts hexact => (h.holds hempty hexact).showsHistory htexts⟩

/-! ### A notification that is sent with what an inbox shows of its own accord -/

namespace Spring

/-- An empty store on a disk. -/
def start : Resources := { stores := KeyMap.singleton "disk" (.durable {}) }

/-- The identifier of the first document. -/
def first : String := "00000000-0000-4000-8000-000000000001"

/-- Ann wants to see her inbox. -/
def ann : Fields := KeyMap.singleton "recipient" (.str "ann")

/-- A notification with an identifier, a time and a mark of its own. -/
def forged : Fields := KeyMap.ofList [("recipient", .str "ann"), ("topic", .str "spring"),
  ("count", .int 3), ("_id", .str "mine"), ("notification", .str "mine"), ("read", .bool true),
  ("createdAt", .str "0")]

lemma exact_forged : ∀ e ∈ forged.entries, Value.Exact 126 e.2 := by
  simp only [forged, KeyMap.ofList, List.foldl_cons, List.foldl_nil]
  repeat refine KeyMap.forall_mem_insert ?_ ?_
  · exact fun _ he => absurd he List.not_mem_nil
  all_goals constructor <;> decide

lemma exists_run_forged : ∃ r, ((concept "disk").perform "notify" forged).run start =
    (.finished (.ok (named first)), r) ∧ r.readings = 1 := ⟨_, rfl, rfl⟩

end Spring

open Spring in
theorem inbox_faithful_forged : ∃ turns r, Serves "disk" start turns r ∧ SendsExact turns ∧
    turns.map (·.action) = ["notify", "markRead"] ∧
    ∃ entry r', ((concept "disk").perform "_getNotifications" ann).run r =
        (.finished (.ok (inboxOutput [entry])), r') ∧
      entry.get? "count" = some (.int 3) ∧ entry.get? "_id" = none ∧
      entry.get? "notification" = some (.str first) ∧ entry.get? "read" = some (.bool true) := by
  obtain ⟨r₁, hrun, hreadings⟩ := exists_run_forged
  have hsent := Serves.call .start hrun
  obtain ⟨t, haction, hinput, hbefore, hserves⟩ := hsent.exists_call "markRead" (named first)
  let sent : Turn := ⟨"notify", forged, start, .ok (named first), r₁⟩
  have hdelivers : t.delivers = false := delivers_of_ne (by simp [haction])
  have hexact : SendsExact [sent, t] := by
    rintro u hu hu'
    rcases List.mem_pair.1 hu with rfl | rfl
    · exact exact_forged
    · exact absurd (hdelivers.symm.trans hu') (by decide)
  have htexts : TextsSort [sent, t] := by
    have hfirst : sent.time = ⟨Resources.epoch + 0 + 1⟩ := rfl
    have hsecond : t.time = ⟨Resources.epoch + 1 + 1⟩ := by
      rw [Turn.time, hbefore, Resources.readClock, hreadings]
    intro u hu v hv
    rcases List.mem_pair.1 hu with rfl | rfl <;> rcases List.mem_pair.1 hv with rfl | rfl
    all_goals
      simp only [hfirst, hsecond]
      decide +kernel
  have hhistory := (inbox_faithful hserves).2 rfl htexts fun _ => hexact
  obtain ⟨entries, r', hanswer, -, hshows⟩ := hhistory ann "ann" rfl
  have hsentTo : sentTo "ann" [sent, t] = [(sent, [t])] := by
    have hdelivers' : sent.delivers = true := rfl
    rw [sentTo, deliveries, hdelivers', if_pos rfl, deliveries, hdelivers, if_neg (by decide),
      deliveries]
    rfl
  change List.Forall₂ _ entries (sentTo "ann" [sent, t]) at hshows
  rw [hsentTo, List.forall₂_cons_right_iff] at hshows
  obtain ⟨entry, rest, hentry, hrest, rfl⟩ := hshows
  obtain rfl := List.forall₂_nil_right_iff.1 hrest
  obtain ⟨id, hresult, hnamed, hread⟩ := hentry.named
  have hid : first = id := by
    have heq := congrArg (KeyMap.get? · "notification") (Except.ok.inj hresult)
    simpa [named] using heq
  have hmarks : t.marks first = true := by
    simp [Turn.marks, haction, hinput, named, KeyMap.string?, Value.asString?]
  subst hid
  refine ⟨_, _, hserves, hexact, by simp [haction], entry, r', hanswer, ?_, hentry.bare, hnamed, ?_⟩
  · rw [hentry.kept "count" (by decide)]
    rfl
  · simpa [hmarks] using hread

/-! ### A number that is read back as another one -/

namespace Rounded

/-- The number that is written `4.9999999999999995e+39`. -/
def sent : Double := ⟨false, 8271806125530276, 1153, by decide⟩

/-- The number below it, which its text is read as. -/
def stored : Double := ⟨false, 8271806125530275, 1153, by decide⟩

/-- A notification with the number. -/
def notice : Fields :=
  KeyMap.ofList [("recipient", .str "ann"), ("topic", .str "t"), ("v", .double sent)]

/-- The number that the only entry of an inbox shows. -/
def shown? : Progress → Option Double
  | .finished (.ok output) =>
    match output.get? "notifications" with
    | some (.arr [entry]) =>
      match entry.field? "v" with
      | some (.double x) => some x
      | _ => none
    | _ => none
  | _ => none

lemma shown?_inboxOutput {entry : Fields} {x : Double}
    (h : entry.get? "v" = some (.double x)) :
    shown? (.finished (.ok (inboxOutput [entry]))) = some x := by
  simp [shown?, inboxOutput, Value.field?, Value.fields, KeyMap.toValue, KeyMap.ofList_entries, h]

/-- The store after the notification was sent. -/
def after : Resources := (((concept "disk").perform "notify" notice).run Spring.start).2

lemma shown?_after :
    shown? (((concept "disk").perform "_getNotifications" Spring.ann).run after).1 =
      some stored := by
  decide +kernel

end Rounded

open Spring Rounded in
/-- On disk a number may come back as another one, if it does not read back from its text. -/
theorem not_forall_inbox_faithful :
    ¬ ∀ (store : String) (r₀ r : Resources) (turns : List Turn), Serves store r₀ turns r →
      ((r₀.storeNamed store).perform "" (.find notifications .empty)).1 =
        .ok ([] : List Fields) →
      TextsSort turns → ShowsHistory store turns r := by
  intro h
  let t : Turn := ⟨"notify", notice, start, .ok (named first), after⟩
  have hserves : Serves "disk" start [t] after := .call .start rfl
  have htexts : TextsSort [t] := by
    intro u hu v hv hlt
    rw [List.mem_singleton.1 hu, List.mem_singleton.1 hv] at hlt
    exact absurd hlt (Nat.lt_irrefl _)
  obtain ⟨entries, r', hanswer, -, hshows⟩ :=
    h "disk" start after [t] hserves rfl htexts ann "ann" rfl
  have hsentTo : sentTo "ann" [t] = [(t, [])] := rfl
  rw [hsentTo, List.forall₂_cons_right_iff] at hshows
  obtain ⟨entry, rest, hentry, hrest, rfl⟩ := hshows
  obtain rfl := List.forall₂_nil_right_iff.1 hrest
  have hkept : entry.get? "v" = some (.double sent) := hentry.kept "v" (by decide)
  have hstored := shown?_after
  rw [hanswer, shown?_inboxOutput hkept] at hstored
  exact absurd hstored (by decide)

end Notifying

end Synchrony

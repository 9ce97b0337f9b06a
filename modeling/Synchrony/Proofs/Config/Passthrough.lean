import Mathlib.Tactic.Common
import Synchrony.Http.Call
import Synchrony.Proofs.Route.Paths

/-!
# Paths that invoke actions directly

A configuration lists paths, and a call on a listed path invokes the action that the path names.
Validation complains of an entry exactly if no call can invoke anything by it, and no two entries lead
to one action (`Config.refuses_iff_not_reaches`). What validation shows of an issue tells the issue: a
message begins with the name of a setting, behind which it says what is wrong (`ConfigIssue.message_inj`).
-/

namespace Synchrony

/-! ### Messages -/

namespace ConfigIssue

variable {i j : ConfigIssue}

/-- The name of the setting that an issue is about. -/
def setting : ConfigIssue → String
  | zeroDepth => "engine.max_depth"
  | zeroActions => "engine.max_actions"
  | zeroTimeout => "requesting.timeout_ms"
  | baseWithoutSlash _ => "requesting.base_path"
  | badPassthrough _ => "requesting.passthrough"

/-- What is wrong with the setting. -/
def complaint : ConfigIssue → String
  | zeroDepth | zeroActions | zeroTimeout => "must be greater than 0"
  | baseWithoutSlash base => "'" ++ (base ++ "' should start with '/'")
  | badPassthrough entry => "entry '" ++ (entry ++ "' is not of the form /Concept/action")

lemma message_eq (i : ConfigIssue) : i.message = i.setting ++ (" " ++ i.complaint) := by
  have hbase : "requesting.base_path '" = "requesting.base_path" ++ (" " ++ "'") := by decide
  have hentry : "requesting.passthrough entry '" =
      "requesting.passthrough" ++ (" " ++ "entry '") := by decide
  cases i with
  | zeroDepth | zeroActions | zeroTimeout => decide
  | baseWithoutSlash base =>
    change "requesting.base_path '" ++ base ++ "' should start with '/'" = _
    rw [hbase]
    simp only [setting, complaint, String.append_assoc]
  | badPassthrough entry =>
    change "requesting.passthrough entry '" ++ entry ++ "' is not of the form /Concept/action" = _
    rw [hentry]
    simp only [setting, complaint, String.append_assoc]

lemma toList_message (i : ConfigIssue) :
    i.message.toList = i.setting.toList ++ ' ' :: i.complaint.toList := by
  rw [message_eq, String.toList_append, String.toList_append]
  rfl

lemma blank_notMem_setting (i : ConfigIssue) : ' ' ∉ i.setting.toList := by
  cases i <;> simp [setting]

/-- Different issues have different messages. -/
theorem message_inj : i.message = j.message ↔ i = j := by
  refine ⟨fun h => ?_, congrArg message⟩
  have hlist := congrArg String.toList h
  rw [toList_message, toList_message] at hlist
  obtain ⟨hsetting, hcomplaint⟩ :=
    append_cons_inj (blank_notMem_setting i) (blank_notMem_setting j) hlist
  rw [String.toList_inj] at hsetting hcomplaint
  cases i <;> cases j <;> simp_all [setting, complaint]

end ConfigIssue

/-! ### Listed paths -/

namespace RequestingConfig

variable {c : RequestingConfig} {path : String} {action : ActionRef}

/--
A call that names the path, by what stands below the base, invokes the action directly. Whether the
action is declared is for the registry to say.
-/
def Reaches (c : RequestingConfig) (path : String) (action : ActionRef) : Prop :=
  ∃ below, Http.Call.pathOf below = path ∧
    c.passthroughAction? (Http.Call.pathOf below) = some action

lemma passthroughAction?_eq_some_iff : c.passthroughAction? path = some action ↔
    path ∈ c.passthrough ∧ action.path = path ∧ action.Addressable := by
  rw [passthroughAction?, Option.ite_none_right_eq_some, List.contains_iff_mem,
    ActionRef.ofPath?_eq_some_iff]

/-- A call can name the path of every reference that has one. -/
lemma exists_pathOf_eq (h : action.Addressable) : ∃ below, Http.Call.pathOf below = action.path := by
  obtain ⟨first, rest, hconcept⟩ := List.exists_cons_of_ne_nil
    (mt String.toList_eq_nil_iff.1 h.concept.1)
  have hfirst : first ≠ '/' := by
    rintro rfl
    exact h.concept.2 (hconcept ▸ List.mem_cons_self)
  refine ⟨action.concept ++ "/" ++ action.action, ?_⟩
  rw [← String.toList_inj, ActionRef.toList_path, Http.Call.pathOf]
  simp [String.toList_append, hconcept, hfirst]

lemma reaches_iff : c.Reaches path action ↔ c.passthroughAction? path = some action := by
  constructor
  · rintro ⟨below, rfl, haction⟩
    exact haction
  · intro haction
    obtain ⟨-, rfl, haddressable⟩ := passthroughAction?_eq_some_iff.1 haction
    obtain ⟨below, hbelow⟩ := exists_pathOf_eq haddressable
    exact ⟨below, hbelow, by rwa [hbelow]⟩

end RequestingConfig

namespace Config

variable {c : Config} {entry : String}

/-- Validation shows an error with the message for the entry. -/
def Refuses (c : Config) (entry : String) : Prop :=
  ∃ issue ∈ c.validate, issue.level = "error" ∧
    issue.message = (ConfigIssue.badPassthrough entry).message

lemma badPassthrough_mem_validate_iff : .badPassthrough entry ∈ c.validate ↔
    entry ∈ c.requesting.passthrough ∧ ActionRef.ofPath? entry = none := by
  have hother (p : Prop) [Decidable p] {issue : ConfigIssue} (hissue : issue ≠ .badPassthrough entry) :
      .badPassthrough entry ∉ (if p then [issue] else []) ∧
        .badPassthrough entry ∉ (if p then [] else [issue]) := by
    split <;> simp [hissue.symm]
  rw [validate, List.mem_append, or_iff_right]
  · simp
  · simp [hother]

lemma refuses_iff : c.Refuses entry ↔
    entry ∈ c.requesting.passthrough ∧ ActionRef.ofPath? entry = none := by
  rw [← badPassthrough_mem_validate_iff]
  constructor
  · rintro ⟨issue, hissue, -, hmessage⟩
    rwa [← ConfigIssue.message_inj.1 hmessage]
  · intro hmem
    exact ⟨_, hmem, rfl, rfl⟩

/--
Paths and references with names that can stand in a path tell each other, and no other text is read as
a reference. So a listed path leads to the reference of this kind whose path it is; validation refuses an
entry exactly if no call can invoke an action by it; and different entries do not lead to one action.
-/
theorem refuses_iff_not_reaches (c : Config) :
    (∀ r : ActionRef, ActionRef.ofPath? r.path = if r.Addressable then some r else none) ∧
      (∀ p r, ActionRef.ofPath? p = some r → r.path = p) ∧
      (∀ p r, c.requesting.passthroughAction? p = some r ↔
        p ∈ c.requesting.passthrough ∧ r.path = p ∧ r.Addressable) ∧
      (∀ entry ∈ c.requesting.passthrough,
        c.Refuses entry ↔ ¬ ∃ r, c.requesting.Reaches entry r) ∧
      ∀ entry entry' r, c.requesting.Reaches entry r → c.requesting.Reaches entry' r →
        entry = entry' := by
  refine ⟨ActionRef.ofPath?_path, fun p r h => (ActionRef.ofPath?_eq_some_iff.1 h).1,
    fun p r => RequestingConfig.passthroughAction?_eq_some_iff, fun entry hentry => ?_,
    fun entry entry' r h h' => ?_⟩
  · have hlisted : c.requesting.passthroughAction? entry = ActionRef.ofPath? entry :=
      if_pos (List.contains_iff_mem.2 hentry)
    rw [refuses_iff, and_iff_right hentry, Option.eq_none_iff_forall_ne_some, not_exists]
    simp only [RequestingConfig.reaches_iff, hlisted, ne_eq]
  · rw [RequestingConfig.reaches_iff, RequestingConfig.passthroughAction?_eq_some_iff] at h h'
    exact h.2.1.symm.trans h'.2.1

example : ({ requesting := { passthrough := ["/Bell/ring", "/Bell//ring"] } } : Config).validate =
    [.badPassthrough "/Bell//ring"] := by
  decide

end Config

end Synchrony

import Mathlib.Data.List.DropRight
import Synchrony.Cli.Run
import Synchrony.Http.Target

/-!
# Which configurations can be served

A route can only be built for a path that begins with a slash. Two of the three routes of the server
are made from the base path without the slashes at its end, so the server can be built exactly if the
configured base path is empty or begins with a slash. Validation lets every base path pass: one
without a slash at its beginning is a warning, also the empty one, with which the server can be built.
-/

namespace Synchrony

namespace Http

/-- The paths of the routes: the health check, the history, and everything else below the base. -/
def routePaths (base : String) : List String :=
  ["/health", base ++ "/_concord/history", base ++ "/\x7b*path\x7d"]

/-- A path for which a route can be built. -/
def Rooted (path : String) : Prop := path.toList.head? = some '/'

instance (path : String) : Decidable (Rooted path) :=
  inferInstanceAs (Decidable (path.toList.head? = some '/'))

lemma isServable_iff {base : String} :
    isServable base = true ↔ base.toList = [] ∨ base.toList.head? = some '/' := by
  simp [isServable]

/-- What is appended does not matter unless there is nothing to append to. -/
lemma rooted_append_iff {base suffix : String} (h : Rooted suffix) :
    Rooted (base ++ suffix) ↔ isServable base = true := by
  rw [Rooted] at h
  rw [isServable_iff, Rooted, String.toList_append]
  cases base.toList with
  | nil => simp [h]
  | cons c rest => simp

/-- The server can be built if all of its routes can. -/
lemma isServable_iff_routePaths {base : String} :
    isServable base = true ↔ ∀ path ∈ routePaths base, Rooted path := by
  have hhealth : Rooted "/health" := by decide
  have hhistory : Rooted "/_concord/history" := by decide
  have hrest : Rooted "/\x7b*path\x7d" := by decide
  simp only [routePaths, List.forall_mem_cons, List.not_mem_nil, false_imp_iff, implies_true,
    and_true, rooted_append_iff hhistory, rooted_append_iff hrest, hhealth, true_and, and_self]

end Http

namespace RequestingConfig

lemma toList_trimmedBase (c : RequestingConfig) :
    c.trimmedBase.toList = c.basePath.toList.rdropWhile (· = '/') := by
  rw [trimmedBase, String.toList_ofList, List.rdropWhile]

/-- Without the slashes at its end a base path can be served exactly if it could with them. -/
lemma isServable_trimmedBase_iff {c : RequestingConfig} :
    Http.isServable c.trimmedBase = true ↔ Http.isServable c.basePath = true := by
  rw [Http.isServable_iff, Http.isServable_iff, toList_trimmedBase]
  cases h : c.basePath.toList.rdropWhile (· = '/') with
  | nil =>
    have hslashes := List.rdropWhile_eq_nil_iff.1 h
    cases hbase : c.basePath.toList with
    | nil => simp
    | cons x rest => simpa [hbase] using hslashes x (by simp [hbase])
  | cons x rest =>
    obtain ⟨slashes, hslashes⟩ := List.rdropWhile_prefix (· = '/') c.basePath.toList
    rw [h] at hslashes
    simp [← hslashes]

end RequestingConfig

namespace Config

variable {c : Config}

/-- A list of errors is empty if it has none. -/
lemma eq_nil_of_forall_isError {issues : List ConfigIssue} (herror : ∀ i ∈ issues, i.isError = true)
    (h : ∀ i ∈ issues, i.isError = false) : issues = [] := by
  refine List.eq_nil_iff_forall_not_mem.2 fun i hi => ?_
  exact Bool.noConfusion ((herror i hi).symm.trans (h i hi))

/-- Without errors, the base path is all that validation can complain about. -/
lemma validate_eq_of_forall (h : ∀ i ∈ c.validate, i.isError = false) :
    c.validate = if c.requesting.basePath.toList.head? = some '/' then []
      else [.baseWithoutSlash c.requesting.basePath] := by
  simp only [validate, List.forall_mem_append] at h
  obtain ⟨⟨⟨⟨hdepth, hactions⟩, htimeout⟩, -⟩, hpassthrough⟩ := h
  have hone (i : ConfigIssue) (hi : i.isError = true) (p : Prop) [Decidable p] :
      ∀ j ∈ (if p then [i] else []), j.isError = true := by
    split <;> simp [hi]
  have hentry : ∀ j ∈ (c.requesting.passthrough.filter fun p =>
      (ActionRef.ofPath? p).isNone).map ConfigIssue.badPassthrough, j.isError = true := by
    intro j hj
    obtain ⟨entry, -, rfl⟩ := List.mem_map.1 hj
    rfl
  rw [validate, eq_nil_of_forall_isError (hone _ rfl _) hdepth,
    eq_nil_of_forall_isError (hone _ rfl _) hactions,
    eq_nil_of_forall_isError (hone _ rfl _) htimeout, eq_nil_of_forall_isError hentry hpassthrough]
  simp

/-- The server is not refused for its configuration. -/
lemma serve_ne_invalid (h : ∀ i ∈ c.validate, i.isError = false) (files : FileTree)
    (port : Option UInt16) (issue : ConfigIssue) :
    Cli.serve files c port ≠ .ended [] (some (.invalid issue)) := by
  have hfind : c.validate.find? ConfigIssue.isError = none :=
    List.find?_eq_none.2 fun i hi => by simp [h i hi]
  rw [Cli.serve, hfind]
  cases c.store.path with
  | none => simp
  | some path => by_cases hfits : Cli.canHoldStore files path <;> simp [hfits]

lemma status_check (h : ∀ i ∈ c.validate, i.isError = false) (json : Bool) {i : Installation}
    {w : World} (hinspected : Cli.inspected c = .ok (i, w)) (hclean : i.isClean = true) :
    (Cli.check json c).status = 0 := by
  have hany : c.validate.any ConfigIssue.isError = false :=
    List.any_eq_false.2 fun i hi => by simp [h i hi]
  -- the application stays closed here: to look into it would be to put it together
  unfold Cli.check Cli.inspect
  generalize Cli.inspected c = found at hinspected
  subst hinspected
  simp [hany, hclean, Cli.Ending.status]

/--
A configuration without errors passes the check if all rules are installed, and the server is not
refused for it. The routes can all be built exactly if there is no warning either or the base path is
empty.
-/
theorem rooted_iff_of_validate (h : ∀ i ∈ c.validate, i.isError = false) :
    (∀ json i w, Cli.inspected c = .ok (i, w) → i.isClean = true → (Cli.check json c).status = 0) ∧
      (∀ files port issue, Cli.serve files c port ≠ .ended [] (some (.invalid issue))) ∧
      ((∀ path ∈ Http.routePaths c.requesting.trimmedBase, Http.Rooted path) ↔
        c.validate = [] ∨ c.requesting.basePath = "") := by
  refine ⟨fun json i w => status_check h json, serve_ne_invalid h, ?_⟩
  rw [← Http.isServable_iff_routePaths, RequestingConfig.isServable_trimmedBase_iff,
    Http.isServable_iff, validate_eq_of_forall h]
  by_cases hrooted : c.requesting.basePath.toList.head? = some '/' <;> simp [hrooted]

theorem rooted_iff_of_validate_slashes :
    Http.Rooted "/v1/_concord/history" ∧ Http.Rooted "/v1/\x7b*path\x7d" := by
  have h := (rooted_iff_of_validate (c := { requesting := { basePath := "/v1//" } })
    (by decide)).2.2.2 (.inl (by decide))
  exact ⟨h _ (by decide), h _ (by decide)⟩

/-- Not every configuration without errors can be served. -/
theorem not_forall_rooted_of_validate : ¬ ∀ c : Config, (∀ i ∈ c.validate, i.isError = false) →
    ∀ path ∈ Http.routePaths c.requesting.trimmedBase, Http.Rooted path := by
  intro h
  exact absurd (h { requesting := { basePath := "api" } } (by decide)) (by decide)

end Config

end Synchrony

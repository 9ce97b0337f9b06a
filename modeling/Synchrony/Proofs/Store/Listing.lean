import Synchrony.Proofs.Store.Contents

/-!
# Documents that need not be legible

A store in memory gives any document back, one on disk only what can be read back from its text. So
a store has these documents in a collection (`Store.Lists`) if they have identifiers of their own,
and on disk also are legible; legibility is asked for where a document is written to disk.
-/

namespace Synchrony.Store

/-- The store has these documents in a collection, each under an identifier of its own that was
issued. -/
inductive Lists (c : String) (issued : List String) (docs : List Fields) : Store → Prop where
  | volatile {v : Volatile} (hdocs : v.docs c = docs) (hids : Identified issued docs) :
      Lists c issued docs (.volatile v)
  | durable {d : Durable} (htwins : Twins issued docs (Durable.table d.tables c)) :
      Lists c issued docs (.durable d)

variable {c id fresh : String} {issued more : List String} {docs : List Fields} {doc : Fields}
  {s : Store}

lemma Keeps.lists (h : Keeps c issued docs s) : Lists c issued docs s := by
  cases h with
  | volatile hdocs htwins => exact .volatile hdocs htwins.identified
  | durable htwins => exact .durable htwins

namespace Lists

lemma identified (h : Lists c issued docs s) : Identified issued docs := by
  cases h with
  | volatile _ hids => exact hids
  | durable htwins => exact htwins.identified

lemma mono (h : Lists c issued docs s) (hsub : issued ⊆ more) : Lists c more docs s := by
  cases h with
  | volatile hdocs hids => exact .volatile hdocs (hids.mono hsub)
  | durable htwins => exact .durable (htwins.mono hsub)

/-- Operations on other collections change nothing. -/
lemma of_ne (h : Lists c issued docs s) {op : Op} (hne : op.collection ≠ c) :
    Lists c issued docs (s.perform fresh op).2 := by
  cases h with
  | @volatile v hdocs hids =>
    by_cases hvalid : isCollection op.collection = true
    · rw [perform_volatile hvalid]
      exact .volatile ((Volatile.docs_perform_of_ne hne).trans hdocs) hids
    · rw [perform_of_not_valid (by simpa using hvalid)]
      exact .volatile hdocs hids
  | durable htwins => exact (Keeps.of_ne (.durable htwins) hne).lists

section

variable (h : Lists c issued docs s) (hvalid : isCollection c = true)
include h hvalid

lemma perform_get : s.perform fresh (.get c id) = (.ok (docs.find? (hasId · id)), s) := by
  have hvalid' : isCollection (Op.collection (.get c id)) = true := hvalid
  cases h with
  | volatile hdocs hids =>
    rw [perform_volatile hvalid', ← hdocs]
    rfl
  | durable htwins => exact Keeps.perform_get (.durable htwins) hvalid

/-- A search finds the documents that match, in some order. -/
lemma perform_find (filter : Fields) :
    ∃ found : List Fields, s.perform fresh (.find c filter) = (.ok found, s) ∧
      found.Perm (docs.filter (·.matchesFilter filter)) := by
  have hvalid' : isCollection (Op.collection (.find c filter)) = true := hvalid
  cases h with
  | volatile hdocs hids =>
    rw [perform_volatile hvalid', ← hdocs]
    exact ⟨_, rfl, .refl _⟩
  | durable htwins => exact Keeps.perform_find (.durable htwins) hvalid filter

/-- An insertion succeeds; if the document can be read back where it is on disk, the store has one
document more. -/
lemma perform_insert (hfresh : fresh ∉ issued) (doc : Fields) :
    ∃ s', s.perform fresh (.insert c doc) = (.ok fresh, s') ∧
      ((s.isDurable = true → Legible (withId doc fresh)) →
        Lists c (issued ++ [fresh]) (docs ++ [withId doc fresh]) s') := by
  have hvalid' : isCollection (Op.collection (.insert c doc)) = true := hvalid
  cases h with
  | volatile hdocs hids =>
    rw [perform_volatile hvalid']
    refine ⟨_, rfl, fun _ => .volatile ?_ (hids.insert hfresh doc)⟩
    simp [Volatile.perform, hdocs]
  | @durable d htwins =>
    rw [perform_durable hvalid', Durable.perform_insert]
    refine ⟨_, rfl, fun hlegible => .durable ?_⟩
    simpa using htwins.insert hfresh (hlegible rfl)

lemma perform_update {patch : Fields} (hfound : docs.find? (hasId · id) = some doc)
    (hlegible : s.isDurable = true → Legible (patched doc patch)) :
    ∃ s', s.perform fresh (.update c id patch) = (.ok (patched doc patch), s') ∧
      Lists c issued (docs.map (patchedAt id patch)) s' := by
  have hvalid' : isCollection (Op.collection (.update c id patch)) = true := hvalid
  cases h with
  | @volatile v hdocs hids =>
    have hmemory : v.perform fresh (.update c id patch) =
        (.ok (patched doc patch), v.setDocs c (docs.map (patchedAt id patch))) := by
      rw [Volatile.perform, hdocs, patchFirst_eq hids.nodup, hfound]
      rfl
    rw [perform_volatile hvalid', hmemory]
    exact ⟨_, rfl, .volatile (by simp) (hids.patch id patch)⟩
  | durable htwins =>
    obtain ⟨s', hs', hkeeps⟩ :=
      Keeps.perform_update (.durable htwins) hvalid hfound (hlegible rfl)
    exact ⟨s', hs', hkeeps.lists⟩

end

end Lists

end Synchrony.Store

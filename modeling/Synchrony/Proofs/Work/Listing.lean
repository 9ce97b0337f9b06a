import Synchrony.Proofs.Store.Listing
import Synchrony.Proofs.Work.Uses

/-!
# Documents among the resources that need not be legible

What the operations come to if a store has exactly these documents in a collection, under
identifiers that were drawn (`Resources.Lists`), whatever the documents hold: only an insertion and
an update ask a store on disk for documents that can be read back. What happens apart from the
collection leaves it as it is (`Resources.Lists.of_apart`).
-/

namespace Synchrony.Resources

/-- A store has these documents in a collection, each under an identifier of its own that was
drawn. -/
def Lists (store c : String) (docs : List Fields) (r : Resources) : Prop :=
  Store.Lists c r.drawnIds docs (r.storeNamed store)

/-- What others do apart from a collection: they use other collections, and change what is no store.
The clock only goes forward. -/
inductive Apart (store c : String) (r : Resources) : Resources → Prop where
  | operation (name : String) (op : Store.Op) (hne : name ≠ store ∨ op.collection ≠ c) :
      Apart store c r (r.onStore name op).2
  | other {r' : Resources} (hstores : r'.stores = r.stores) (hdrawn : r.drawn ≤ r'.drawn)
      (hreadings : r.readings ≤ r'.readings) : Apart store c r r'

variable {r r' : Resources} {store name c id : String} {docs : List Fields} {op : Store.Op}

lemma readings_onStore (r : Resources) (name : String) (op : Store.Op) :
    (r.onStore name op).2.readings = r.readings := by
  rw [onStore_eq]

namespace Apart

lemma readings_le (h : Apart store c r r') : r.readings ≤ r'.readings := by
  cases h with
  | operation name op hne => exact (r.readings_onStore name op).ge
  | other hstores hdrawn hreadings => exact hreadings

lemma isDurable_eq (h : Apart store c r r') (other : String) :
    (r'.storeNamed other).isDurable = (r.storeNamed other).isDurable := by
  cases h with
  | operation name op hne => exact r.isDurable_onStore name op other
  | other hstores hdrawn hreadings => rw [storeNamed_congr hstores]

end Apart

namespace Lists

lemma of_untouched (h : r.Lists store c docs) (hsame : r.Untouched r') : r'.Lists store c docs := by
  rw [Lists, hsame.stored]
  exact Store.Lists.mono h (drawnIds_subset hsame.drawn.ge)

lemma of_apart (h : r.Lists store c docs) (hr : Apart store c r r') : r'.Lists store c docs := by
  cases hr with
  | operation name op hne =>
    have hids : r.drawnIds ⊆ (r.onStore name op).2.drawnIds :=
      drawnIds_subset (r.drawn_le_onStore name op)
    rw [Lists, (r.leaves_onStore name op).stored]
    refine Store.Lists.mono ?_ hids
    split
    · rename_i heq
      subst heq
      exact Store.Lists.of_ne h (hne.resolve_left (absurd rfl))
    · exact h
  | other hstores hdrawn hreadings =>
    rw [Lists, storeNamed_congr hstores]
    exact Store.Lists.mono h (drawnIds_subset hdrawn)

section

variable (h : r.Lists store c docs) (hvalid : Store.isCollection c = true)
include h hvalid

lemma onStore_get (id : String) :
    ∃ r', r.onStore store (.get c id) = (.ok (docs.find? (Store.hasId · id)), r') ∧
      r.Untouched r' := by
  obtain ⟨r', hr, hleaves⟩ := exists_onStore (Store.Lists.perform_get h hvalid)
  exact ⟨r', hr, hleaves.untouched rfl⟩

lemma onStore_find (filter : Fields) :
    ∃ (found : List Fields) (r' : Resources),
      r.onStore store (.find c filter) = (.ok found, r') ∧
        found.Perm (docs.filter (·.matchesFilter filter)) ∧ r.Untouched r' := by
  obtain ⟨found, hfound, hperm⟩ := Store.Lists.perform_find h hvalid filter
  obtain ⟨r', hr, hleaves⟩ := exists_onStore hfound
  exact ⟨found, r', hr, hperm, hleaves.untouched rfl⟩

/-- A new document gets the next identifier, and it is there if it can be read back. -/
lemma onStore_insert (doc : Fields) :
    ∃ r', r.onStore store (.insert c doc) = (.ok (idText (r.drawn + 1)), r') ∧
      (((r.storeNamed store).isDurable = true →
          Store.Legible (Store.withId doc (idText (r.drawn + 1)))) →
        r'.Lists store c (docs ++ [Store.withId doc (idText (r.drawn + 1))])) := by
  obtain ⟨s', hs', hlists⟩ := Store.Lists.perform_insert h hvalid r.idText_notMem_drawnIds doc
  obtain ⟨r', hr, hleaves⟩ := exists_onStore hs'
  have hdrawn : r'.drawn = r.drawn + 1 := by
    rw [hleaves.drawn]
    exact if_pos hvalid
  refine ⟨r', hr, fun hlegible => ?_⟩
  rw [Lists, hleaves.stored, if_pos rfl]
  refine (hlists hlegible).mono ?_
  simp [drawnIds, hdrawn, List.range_succ]

lemma onStore_update {doc patch : Fields} (hfound : docs.find? (Store.hasId · id) = some doc)
    (hlegible : (r.storeNamed store).isDurable = true →
      Store.Legible (Store.patched doc patch)) :
    ∃ r', r.onStore store (.update c id patch) = (.ok (Store.patched doc patch), r') ∧
      r'.Lists store c (docs.map (Store.patchedAt id patch)) := by
  obtain ⟨s', hs', hlists⟩ := Store.Lists.perform_update h hvalid hfound hlegible
  obtain ⟨r', hr, hleaves⟩ := exists_onStore hs'
  refine ⟨r', hr, ?_⟩
  rw [Lists, hleaves.stored, if_pos rfl]
  exact hlists.mono (drawnIds_subset hleaves.drawn.ge)

end

end Lists

end Synchrony.Resources

import Synchrony.Concepts.Arguments
import Synchrony.Proofs.Store.Identifiers
import Synchrony.Proofs.Work.Resources

/-!
# What work uses

`Work.Uses P` says that all operations on stores that work may come to have the property `P`. What
such operations keep, and what changes of anything but the stores keep, the work keeps
(`Work.Uses.run`). So work leaves the collections alone that it does not use, and every identifier
that it puts into a collection was drawn.
-/

namespace Synchrony

/-- All operations on stores that the work may come to have the property. -/
inductive Work.Uses (P : String → Store.Op → Prop) : Work → Prop where
  | done (result : Except ConceptError Fields) : Uses P (.done result)
  | store {name : String} {op : Store.Op} {next : Except StoreError op.Result → Work}
      (hop : P name op) (hnext : ∀ answer, Uses P (next answer)) : Uses P (.store name op next)
  | clock {next : Timestamp → Work} (hnext : ∀ time, Uses P (next time)) : Uses P (.clock next)
  | cell {name : String} {change : Fields → Fields} {next : Fields → Work}
      (hnext : ∀ contents, Uses P (next contents)) : Uses P (.cell name change next)
  | request {next : String → Work} (hnext : ∀ id, Uses P (next id)) : Uses P (.request next)
  | respond {id : String} {payload : Fields} {next : Except RespondError Unit → Work}
      (hnext : ∀ answer, Uses P (next answer)) : Uses P (.respond id payload next)
  | pause {ms : Nat} {next : Work} (hnext : Uses P next) : Uses P (.pause ms next)

namespace Work.Uses

variable {P P' : String → Store.Op → Prop} {w : Work}

lemma imp (h : w.Uses P) (himp : ∀ name op, P name op → P' name op) : w.Uses P' := by
  induction h with
  | done result => exact .done result
  | store hop _ ih => exact .store (himp _ _ hop) ih
  | clock _ ih => exact .clock ih
  | cell _ ih => exact .cell ih
  | request _ ih => exact .request ih
  | respond _ ih => exact .respond ih
  | pause _ ih => exact .pause ih

/-- Any work uses some operations. -/
lemma trivial (w : Work) : w.Uses fun _ _ => True := by
  induction w with
  | done result => exact .done result
  | store _ _ _ ih => exact .store True.intro ih
  | clock _ ih => exact .clock ih
  | cell _ _ _ ih => exact .cell ih
  | request _ ih => exact .request ih
  | respond _ _ _ ih => exact .respond ih
  | pause _ _ ih => exact .pause ih

lemma given {α : Type} {argument : Except ConceptError α} {next : α → Work}
    (h : ∀ a, (next a).Uses P) : (Work.given argument next).Uses P := by
  cases argument with
  | ok a => exact h a
  | error e => exact .done _

lemma onStore {name : String} {op : Store.Op} {next : op.Result → Work} (hop : P name op)
    (h : ∀ answer, (next answer).Uses P) : (Work.onStore name op next).Uses P := by
  refine .store hop fun answer => ?_
  cases answer with
  | ok answer => exact h answer
  | error e => exact .done _

/-- What each operation keeps, and each change of anything but the stores, a whole run keeps. -/
theorem run {Q : Resources → Prop} (h : w.Uses P)
    (hstore : ∀ r name op, P name op → Q r → Q (r.onStore name op).2)
    (hother : ∀ r r' : Resources, r'.stores = r.stores → r.drawn ≤ r'.drawn → Q r → Q r')
    {r : Resources} (hr : Q r) : Q (w.run r).2 := by
  induction h generalizing r with
  | done result => exact hr
  | store hop _ ih => exact ih _ (hstore r _ _ hop hr)
  | clock _ ih => exact ih _ (hother r _ rfl (Nat.le_refl _) hr)
  | cell _ ih => exact ih _ (hother r _ rfl (Nat.le_refl _) hr)
  | request _ ih => exact ih _ (hother r _ rfl (Nat.le_succ _) hr)
  | respond _ ih =>
    rw [Work.run]
    split
    · exact ih _ (hother r _ rfl (Nat.le_refl _) hr)
    · exact ih _ hr
  | pause _ ih =>
    rw [Work.run]
    split
    · exact ih hr
    · exact hother r _ rfl (Nat.le_refl _) hr

end Work.Uses

/-! ### Stores -/

/-- Work turns no store into one of the other kind. -/
theorem Resources.isDurable_run (r : Resources) (w : Work) (name : String) :
    ((w.run r).2.storeNamed name).isDurable = (r.storeNamed name).isDurable := by
  refine (Work.Uses.trivial w).run
    (Q := fun r' => (r'.storeNamed name).isDurable = (r.storeNamed name).isDurable) ?_ ?_ rfl
  · exact fun r' other op _ h => (r'.isDurable_onStore other op name).trans h
  · intro r' r'' hstores _ h
    rw [Resources.storeNamed, hstores]
    exact h

/-! ### Collections -/

namespace Resources

variable {r r' : Resources} {store name c : String} {op : Store.Op} {w : Work}

/-- Only the stores matter, and the identifiers that were drawn. -/
lemma storeNamed_congr (h : r'.stores = r.stores) (name : String) :
    r'.storeNamed name = r.storeNamed name := by
  rw [storeNamed, h, storeNamed]

/-- An operation on another store or another collection leaves a collection as it is. -/
lemma sameIn_onStore (r : Resources) (hne : name ≠ store ∨ op.collection ≠ c) :
    Store.SameIn c (r.storeNamed store) ((r.onStore name op).2.storeNamed store) := by
  rw [(r.leaves_onStore name op).stored]
  split
  · rename_i heq
    subst heq
    exact Store.sameIn_perform_of_ne _ _ (hne.resolve_left (absurd rfl))
  · exact .refl c _

/-- Work leaves a collection as it is that it does not use. -/
theorem sameIn_run (r : Resources) (h : w.Uses fun name op => name ≠ store ∨ op.collection ≠ c) :
    Store.SameIn c (r.storeNamed store) ((w.run r).2.storeNamed store) := by
  refine h.run (Q := fun r' => Store.SameIn c (r.storeNamed store) (r'.storeNamed store)) ?_ ?_
    (.refl c _)
  · exact fun r' name op hne hsame => hsame.trans (r'.sameIn_onStore hne)
  · intro r' r'' hstores _ hsame
    rwa [storeNamed_congr hstores]

/-- The identifiers in a collection of a store. -/
def ids (r : Resources) (store c : String) : List (Option String) := Store.ids c
    (r.storeNamed store)

/-- Work that adds and removes no documents of a collection leaves its identifiers as they are. -/
theorem ids_run (r : Resources)
    (h : w.Uses fun name op => (name ≠ store ∨ op.collection ≠ c) ∨ op.resizes = false) :
    (w.run r).2.ids store c = r.ids store c := by
  refine h.run (Q := fun r' => r'.ids store c = r.ids store c) ?_ ?_ rfl
  · rintro r' name op (hne | hop) hsame
    · exact (r'.sameIn_onStore hne).ids_eq.trans hsame
    · rw [← hsame, ids, (r'.leaves_onStore name op).stored]
      split
      · rename_i heq
        rw [Store.ids_perform_of_not_resizes _ _ hop, ids, heq]
      · rfl
  · intro r' r'' hstores _ hsame
    rw [← hsame, ids, storeNamed_congr hstores, ids]

/-- All identifiers in a collection were drawn. -/
def IdsDrawn (store c : String) (r : Resources) :
    Prop := ∀ id, some id ∈ r.ids store c → id ∈ r.drawnIds

lemma IdsDrawn.of_stores (h : r.IdsDrawn store c) (hstores : r'.stores = r.stores)
    (hdrawn : r.drawn ≤ r'.drawn) : r'.IdsDrawn store c := by
  intro id hid
  rw [ids, storeNamed_congr hstores] at hid
  exact drawnIds_subset hdrawn (h id hid)

lemma drawn_le_onStore (r : Resources) (name : String) (op : Store.Op) :
    r.drawn ≤ (r.onStore name op).2.drawn := by
  rw [(r.leaves_onStore name op).drawn]
  split <;> omega

lemma IdsDrawn.onStore (h : r.IdsDrawn store c) (name : String) (op : Store.Op) :
    (r.onStore name op).2.IdsDrawn store c := by
  have hleaves := r.leaves_onStore name op
  intro id hid
  rw [ids, hleaves.stored] at hid
  split at hid
  · rename_i heq
    rcases Store.mem_ids_perform hid with hid | ⟨htakes, rfl⟩
    · exact drawnIds_subset (r.drawn_le_onStore name op) (h id (by rwa [ids, heq]))
    · refine mem_drawnIds_iff.2 ⟨r.drawn, ?_, rfl⟩
      rw [hleaves.drawn, if_pos htakes]
      exact Nat.lt_succ_self _
  · exact drawnIds_subset (r.drawn_le_onStore name op) (h id hid)

/-- Whatever work does, every identifier in the collection was drawn. -/
theorem IdsDrawn.run (h : r.IdsDrawn store c) (w : Work) : (w.run r).2.IdsDrawn store c :=
  (Work.Uses.trivial w).run (fun _ name op _ hr => hr.onStore name op)
    (fun _ _ hstores hdrawn hr => hr.of_stores hstores hdrawn) h

end Resources

end Synchrony

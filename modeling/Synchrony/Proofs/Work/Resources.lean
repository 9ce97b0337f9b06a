import Synchrony.Proofs.Store.Contents
import Synchrony.Proofs.Value.Reading
import Synchrony.Work

/-!
# Stores among the resources

No identifier is drawn twice (`idText_injective`), so a document that is inserted never takes the
place of another one. From that come the laws of the operations that concepts perform: what a store
keeps in a collection under identifiers that were drawn (`Keeps`), and what is left after each
operation.
-/

namespace Synchrony.Resources

/-! ### Identifiers -/

/-- The number that hexadecimal digits stand for. -/
def numberOf (digits : List Char) : Nat :=
  digits.foldl (fun n c => 16 * n + (Value.Reader.hexDigit? c).getD 0) 0

lemma numberOf_append_singleton (digits : List Char) (c : Char) :
    numberOf (digits ++ [c]) = 16 * numberOf digits + (Value.Reader.hexDigit? c).getD 0 := by
  simp [numberOf, List.foldl_append]

lemma hexDigit?_digitChar {n : Nat} (h : n < 16) : Value.Reader.hexDigit? n.digitChar = some n :=
  Value.Reader.hexDigit?_hexDigit n h

lemma numberOf_toDigits (n : Nat) : numberOf (Nat.toDigits 16 n) = n := by
  induction n using Nat.strong_induction_on with
  | _ n ih =>
    rw [Nat.toDigits_eq_if (by decide)]
    split
    · rename_i hlt
      simp [numberOf, hexDigit?_digitChar hlt]
    · rw [numberOf_append_singleton, ih (n / 16) (by omega),
        hexDigit?_digitChar (Nat.mod_lt n (by decide)), Option.getD_some]
      omega

lemma numberOf_replicate_append (k : Nat) (digits : List Char) :
    numberOf (List.replicate k '0' ++ digits) = numberOf digits := by
  induction k with
  | zero => rfl
  | succ k ih => exact ih

/-- Each number has an identifier of its own. -/
theorem idText_injective : Function.Injective idText := by
  intro m n h
  have hdigits := String.ofList_injective (String.append_right_inj _ |>.1 h)
  have hnumber := congrArg numberOf hdigits
  rwa [numberOf_replicate_append, numberOf_replicate_append, numberOf_toDigits,
    numberOf_toDigits] at hnumber

/-- The identifiers that were drawn so far. -/
def drawnIds (r : Resources) : List String := (List.range r.drawn).map fun n => idText (n + 1)

variable {r r' : Resources} {name store c id : String} {docs : List Fields}

lemma mem_drawnIds_iff : id ∈ r.drawnIds ↔ ∃ n < r.drawn, idText (n + 1) = id := by
  simp [drawnIds]

/-- The next identifier is a new one. -/
lemma idText_notMem_drawnIds (r : Resources) : idText (r.drawn + 1) ∉ r.drawnIds := by
  rw [mem_drawnIds_iff]
  rintro ⟨n, hlt, heq⟩
  have := idText_injective heq
  omega

lemma drawnIds_subset (h : r.drawn ≤ r'.drawn) : r.drawnIds ⊆ r'.drawnIds := by
  intro id hid
  obtain ⟨n, hlt, heq⟩ := mem_drawnIds_iff.1 hid
  exact mem_drawnIds_iff.2 ⟨n, by omega, heq⟩

/-! ### Operations -/

/-- What an operation on a store leaves of the resources, if it makes `s` of that store. -/
structure Leaves (r : Resources) (name : String) (op : Store.Op) (s : Store) (r' : Resources) :
    Prop where
  drawn : r'.drawn = if Store.takesId op then r.drawn + 1 else r.drawn
  stored : ∀ other, r'.storeNamed other = if other = name then s else r.storeNamed other

lemma storeNamed_insert (stores : KeyMap Store) (s : Store) (other : String) :
    ({ r with stores := stores.insert name s } : Resources).storeNamed other =
      if other = name then s else ({ r with stores } : Resources).storeNamed other := by
  rw [storeNamed, KeyMap.get?_insert]
  split
  · rfl
  · rfl

lemma onStore_eq (r : Resources) (name : String) (op : Store.Op) :
    r.onStore name op =
      (((r.storeNamed name).perform (idText (r.drawn + 1)) op).1,
        { r with
          drawn := if Store.takesId op then r.drawn + 1 else r.drawn
          stores := r.stores.insert name
            ((r.storeNamed name).perform (idText (r.drawn + 1)) op).2 }) := by
  cases htakes : Store.takesId op
  all_goals
    simp only [onStore, htakes]
    rfl

lemma exists_onStore {op : Store.Op} {s : Store} {x : Except StoreError op.Result}
    (h : (r.storeNamed name).perform (idText (r.drawn + 1)) op = (x, s)) :
    ∃ r', r.onStore name op = (x, r') ∧ r.Leaves name op s r' := by
  rw [onStore_eq, h]
  exact ⟨_, rfl, rfl, storeNamed_insert r.stores s⟩

lemma leaves_onStore (r : Resources) (name : String) (op : Store.Op) :
    r.Leaves name op ((r.storeNamed name).perform (idText (r.drawn + 1)) op).2
      (r.onStore name op).2 := by
  rw [onStore_eq]
  exact ⟨rfl, storeNamed_insert r.stores _⟩

lemma isDurable_onStore (r : Resources) (name : String) (op : Store.Op) (other : String) :
    ((r.onStore name op).2.storeNamed other).isDurable = (r.storeNamed other).isDurable := by
  rw [(r.leaves_onStore name op).stored]
  split
  · rename_i heq
    rw [Store.isDurable_perform, heq]
  · rfl

/-- The stores are as they were, and no identifier was drawn. -/
structure Untouched (r r' : Resources) : Prop where
  drawn : r'.drawn = r.drawn
  stored : ∀ name, r'.storeNamed name = r.storeNamed name

lemma Untouched.refl (r : Resources) : r.Untouched r := ⟨rfl, fun _ => rfl⟩

lemma Untouched.trans {r'' : Resources} (h : r.Untouched r') (h' : r'.Untouched r'') :
    r.Untouched r'' :=
  ⟨h'.drawn.trans h.drawn, fun other => (h'.stored other).trans (h.stored other)⟩

lemma Leaves.untouched {op : Store.Op} (h : r.Leaves name op (r.storeNamed name) r')
    (htakes : Store.takesId op = false) : r.Untouched r' := by
  refine ⟨by simp [h.drawn, htakes], fun other => ?_⟩
  rw [h.stored]
  split
  · rename_i heq
    rw [heq]
  · rfl

/-- An operation that fails changes nothing. -/
lemma untouched_of_onStore_error {op : Store.Op} {e : StoreError}
    (h : r.onStore name op = (.error e, r')) : r.Untouched r' := by
  have hleaves := r.leaves_onStore name op
  rw [onStore_eq] at h hleaves
  obtain ⟨hperform, rfl⟩ := Prod.mk.inj h
  rw [Store.snd_perform_of_error hperform] at hleaves ⊢
  refine hleaves.untouched ?_
  cases op with
  | insert c doc =>
    -- an identifier is drawn only for an insertion that succeeds
    by_contra htakes
    rw [Store.fst_perform_insert (by simpa [Store.takesId] using htakes)] at hperform
    cases hperform
  | get _ _ | update _ _ _ | delete _ _ | find _ _ | findOne _ _ => rfl

/-- Looking for a document changes nothing. -/
lemma untouched_of_onStore_get {x : Except StoreError (Store.Op.get c id).Result}
    (h : r.onStore name (.get c id) = (x, r')) : r.Untouched r' := by
  have hleaves := r.leaves_onStore name (.get c id)
  rw [Store.snd_perform_get, h] at hleaves
  exact hleaves.untouched rfl

/-! ### Documents under identifiers that were drawn -/

/-- A store keeps these documents in a collection, each under an identifier of its own that was
drawn. -/
def Keeps (store c : String) (docs : List Fields) (r : Resources) : Prop :=
  Store.Keeps c r.drawnIds docs (r.storeNamed store)

namespace Keeps

lemma of_untouched (h : r.Keeps store c docs) (hsame : r.Untouched r') : r'.Keeps store c docs := by
  rw [Keeps, hsame.stored]
  exact Store.Keeps.mono h (drawnIds_subset hsame.drawn.ge)

/-- Other collections and other stores are not touched by an operation. -/
lemma onStore_of_ne (h : r.Keeps store c docs) {op : Store.Op}
    (hne : name ≠ store ∨ op.collection ≠ c) : (r.onStore name op).2.Keeps store c docs := by
  have hleaves := r.leaves_onStore name op
  have hids : r.drawnIds ⊆ (r.onStore name op).2.drawnIds := by
    refine drawnIds_subset ?_
    rw [hleaves.drawn]
    split <;> omega
  rw [Keeps, hleaves.stored]
  refine Store.Keeps.mono ?_ hids
  split
  · rename_i heq
    subst heq
    exact Store.Keeps.of_ne h (hne.resolve_left (absurd rfl))
  · exact h

section

variable (h : r.Keeps store c docs) (hvalid : Store.isCollection c = true)
include h hvalid

lemma onStore_get (id : String) :
    ∃ r', r.onStore store (.get c id) = (.ok (docs.find? (Store.hasId · id)), r') ∧
      r.Untouched r' := by
  obtain ⟨r', hr, hleaves⟩ := exists_onStore (Store.Keeps.perform_get h hvalid)
  exact ⟨r', hr, hleaves.untouched rfl⟩

lemma onStore_find (filter : Fields) :
    ∃ (found : List Fields) (r' : Resources),
      r.onStore store (.find c filter) = (.ok found, r') ∧
        found.Perm (docs.filter (·.matchesFilter filter)) ∧ r.Untouched r' := by
  obtain ⟨found, hfound, hperm⟩ := Store.Keeps.perform_find h hvalid filter
  obtain ⟨r', hr, hleaves⟩ := exists_onStore hfound
  exact ⟨found, r', hr, hperm, hleaves.untouched rfl⟩

lemma onStore_findOne (filter : Fields) :
    ∃ (found : Option Fields) (r' : Resources),
      r.onStore store (.findOne c filter) = (.ok found, r') ∧
        found.isSome = docs.any (·.matchesFilter filter) ∧ r.Untouched r' := by
  obtain ⟨found, hfound, hsome⟩ := Store.Keeps.perform_findOne h hvalid filter
  obtain ⟨r', hr, hleaves⟩ := exists_onStore hfound
  exact ⟨found, r', hr, hsome, hleaves.untouched rfl⟩

/-- A new document is kept under the next identifier. -/
lemma onStore_insert {doc : Fields}
    (hlegible : Store.Legible (Store.withId doc (idText (r.drawn + 1)))) :
    ∃ r', r.onStore store (.insert c doc) = (.ok (idText (r.drawn + 1)), r') ∧
      r'.Keeps store c (docs ++ [Store.withId doc (idText (r.drawn + 1))]) ∧
      r'.drawn = r.drawn + 1 := by
  obtain ⟨s', hs', hkeeps⟩ :=
    Store.Keeps.perform_insert h hvalid r.idText_notMem_drawnIds hlegible
  obtain ⟨r', hr, hleaves⟩ := exists_onStore hs'
  have hdrawn : r'.drawn = r.drawn + 1 := by
    rw [hleaves.drawn]
    exact if_pos hvalid
  refine ⟨r', hr, ?_, hdrawn⟩
  rw [Keeps, hleaves.stored, if_pos rfl]
  refine hkeeps.mono ?_
  simp [drawnIds, hdrawn, List.range_succ]

lemma onStore_update {doc patch : Fields} (hfound : docs.find? (Store.hasId · id) = some doc)
    (hlegible : Store.Legible (Store.patched doc patch)) :
    ∃ r', r.onStore store (.update c id patch) = (.ok (Store.patched doc patch), r') ∧
      r'.Keeps store c (docs.map (Store.patchedAt id patch)) ∧ r'.drawn = r.drawn := by
  obtain ⟨s', hs', hkeeps⟩ := Store.Keeps.perform_update h hvalid hfound hlegible
  obtain ⟨r', hr, hleaves⟩ := exists_onStore hs'
  refine ⟨r', hr, ?_, hleaves.drawn⟩
  rw [Keeps, hleaves.stored, if_pos rfl]
  exact hkeeps.mono (drawnIds_subset hleaves.drawn.ge)

lemma onStore_update_of_none {patch : Fields} (hfound : docs.find? (Store.hasId · id) = none) :
    ∃ r', r.onStore store (.update c id patch) = (.error (.notFound c id), r') ∧
      r.Untouched r' := by
  obtain ⟨r', hr, hleaves⟩ := exists_onStore (Store.Keeps.perform_update_of_none h hvalid hfound)
  exact ⟨r', hr, hleaves.untouched rfl⟩

lemma onStore_delete (id : String) :
    ∃ r', r.onStore store (.delete c id) = (.ok (docs.any (Store.hasId · id)), r') ∧
      r'.Keeps store c (docs.filter (! Store.hasId · id)) ∧ r'.drawn = r.drawn := by
  obtain ⟨s', hs', hkeeps⟩ := Store.Keeps.perform_delete h hvalid
  obtain ⟨r', hr, hleaves⟩ := exists_onStore hs'
  refine ⟨r', hr, ?_, hleaves.drawn⟩
  rw [Keeps, hleaves.stored, if_pos rfl]
  exact hkeeps.mono (drawnIds_subset hleaves.drawn.ge)

end

end Keeps

end Synchrony.Resources

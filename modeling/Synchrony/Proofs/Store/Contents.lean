import Synchrony.Proofs.Store.Agreement

/-!
# What a store keeps in one collection

A store of either kind keeps documents in a collection, each under an identifier of its own that was
issued (`Keeps`). There is one lemma for each operation: what it gives, and what the collection has
afterwards. Operations on other collections leave it alone (`Keeps.of_ne`).
-/

namespace Synchrony

namespace KeyMap

variable {α : Type} {m : KeyMap α} {key : String} {a b : α}

lemma insert_insert : (m.insert key a).insert key b = m.insert key b := by
  refine ext_get? fun other => ?_
  simp only [get?_insert]
  split <;> rfl

lemma insert_of_get? (h : m.get? key = some a) : m.insert key a = m := by
  refine ext_get? fun other => ?_
  rw [get?_insert]
  split
  · rename_i heq
    rw [heq, h]
  · rfl

end KeyMap

namespace Store

/-- The store has these documents in a collection, each under an identifier of its own that was
issued. -/
inductive Keeps (c : String) (issued : List String) (docs : List Fields) : Store → Prop where
  | volatile {v : Volatile} {t : KeyMap String} (hdocs : v.docs c = docs)
      (htwins : Twins issued docs t) : Keeps c issued docs (.volatile v)
  | durable {d : Durable} (htwins : Twins issued docs (Durable.table d.tables c)) :
      Keeps c issued docs (.durable d)

variable {c id fresh : String} {issued more : List String} {docs : List Fields} {s : Store}

lemma filter_matchesFilter_empty (docs : List Fields) :
    docs.filter (·.matchesFilter .empty) = docs := List.filter_eq_self.2 fun _ _ => rfl

lemma eq_empty_of_found {t : KeyMap String} (h : Durable.found t .empty = .ok []) :
    t = .empty := by
  rw [Durable.found] at h
  obtain ⟨_ | ⟨⟨key, text⟩, rest⟩, hordered⟩ := t
  · rfl
  · -- the first text would be read as a document, and every document matches
    rw [KeyMap.values, List.map_cons, Durable.decodeAll] at h
    cases htext : Durable.decode text <;>
      cases hrest : Durable.decodeAll (rest.map (·.2)) <;>
      simp [htext, hrest, Except.map, filter_matchesFilter_empty] at h

/-- A collection in which a search finds nothing keeps no documents. -/
lemma keeps_nil (h : (s.perform fresh (.find c .empty)).1 = .ok ([] : List Fields)) :
    Keeps c issued [] s := by
  by_cases hvalid : isCollection (Op.collection (.find c .empty)) = true
  · cases s with
    | volatile v =>
      rw [perform_volatile hvalid, Volatile.perform, filter_matchesFilter_empty] at h
      exact .volatile (Except.ok.inj h) twins_empty
    | durable d =>
      rw [perform_durable hvalid, Durable.perform_find] at h
      exact .durable (eq_empty_of_found h ▸ twins_empty)
  · rw [perform_of_not_valid (by simpa using hvalid)] at h
    cases h

/-- What an update of a document makes of a store in memory. -/
lemma Volatile.perform_update {v : Volatile} {t : KeyMap String} {doc : Fields}
    (htwins : Twins issued (v.docs c) t) (hfound : (v.docs c).find? (hasId · id) = some doc)
    (fresh : String) (patch : Fields) : v.perform fresh (.update c id patch) =
      (.ok (patched doc patch), v.setDocs c ((v.docs c).map (patchedAt id patch))) := by
  rw [Volatile.perform, patchFirst_eq htwins.nodup, hfound]
  rfl

lemma Twins.lookup_of_find? {t : KeyMap String} {doc : Fields} (htwins : Twins issued docs t)
    (hfound : docs.find? (hasId · id) = some doc) : Durable.lookup t id = .ok (some doc) :=
  hfound ▸ htwins.lookup_eq id

/-! ### Updates that give a document back -/

/-- After an update, the document found under its identifier is the updated one. -/
lemma find?_map_patchedAt {patch doc : Fields} (hfound : docs.find? (hasId · id) = some doc) :
    (docs.map (patchedAt id patch)).find? (hasId · id) = some (patched doc patch) := by
  have hkeys : ((hasId · id) ∘ patchedAt id patch) = (hasId · id) := by
    funext d
    simp [hasId]
  have hpatched : patchedAt id patch doc = patched doc patch :=
    if_pos (hasId_iff.2 (string?_of_find? hfound))
  rw [List.find?_map, hkeys, hfound, Option.map_some, hpatched]

/-- A second update that gives the document back gives all documents back. -/
lemma map_patchedAt_patchedAt {patch back doc : Fields}
    (hnodup : (docs.map (·.string? idField)).Nodup)
    (hfound : docs.find? (hasId · id) = some doc) (hback : patched (patched doc patch) back = doc) :
    (docs.map (patchedAt id patch)).map (patchedAt id back) = docs := by
  have hid := string?_of_find? hfound
  rw [List.map_map]
  refine (List.map_congr_left fun other hother => ?_).trans (List.map_id docs)
  by_cases hsame : hasId other id = true
  · have heq : other = doc := List.inj_on_of_nodup_map hnodup hother
      (List.mem_of_find?_eq_some hfound) ((hasId_iff.1 hsame).trans hid.symm)
    have hfirst : patchedAt id patch doc = patched doc patch := if_pos (hasId_iff.2 hid)
    have hsecond : patchedAt id back (patched doc patch) = patched (patched doc patch) back :=
      if_pos (by simpa [hasId] using hid)
    rw [heq, Function.comp_apply, hfirst, hsecond, hback]
    rfl
  · have hfirst : patchedAt id patch other = other := if_neg hsame
    rw [Function.comp_apply, hfirst]
    exact if_neg hsame

lemma Volatile.get?_collections_of_find? {v : Volatile} {p : Fields → Bool} {doc : Fields}
    (hfound : (v.docs c).find? p = some doc) : v.collections.get? c = some (v.docs c) := by
  rw [Volatile.docs] at hfound ⊢
  cases hget : v.collections.get? c with
  | none => simp [hget] at hfound
  | some docs => rfl

lemma Durable.get?_tables_of_get? {d : Durable} {text : String}
    (hstored : (Durable.table d.tables c).get? id = some text) :
    d.tables.get? c = some (Durable.table d.tables c) := by
  rw [Durable.table] at hstored ⊢
  cases hget : d.tables.get? c with
  | none => simp [hget] at hstored
  | some t => rfl

/-- A second update that gives the document back gives a whole store in memory back. -/
lemma Volatile.update_update {v : Volatile} {t : KeyMap String} {doc patch back : Fields}
    (htwins : Twins issued (v.docs c) t) (hfound : (v.docs c).find? (hasId · id) = some doc)
    (hlegible : Legible (patched doc patch)) (hback : patched (patched doc patch) back = doc)
    (fresh' : String) :
    ((v.perform fresh (.update c id patch)).2.perform fresh' (.update c id back)).2 = v := by
  have hdocs : (v.setDocs c ((v.docs c).map (patchedAt id patch))).docs c =
    (v.docs c).map (patchedAt id patch) := by simp
  have htwins' := htwins.patch hfound hlegible
  have hfound' : ((v.docs c).map (patchedAt id patch)).find? (hasId · id) =
      some (patched doc patch) := find?_map_patchedAt hfound
  rw [← hdocs] at htwins' hfound'
  rw [Volatile.perform_update htwins hfound]
  dsimp only
  rw [Volatile.perform_update htwins' hfound' fresh' back, hdocs,
    map_patchedAt_patchedAt htwins.nodup hfound hback]
  exact congrArg Volatile.mk
    (KeyMap.insert_insert.trans (KeyMap.insert_of_get? (get?_collections_of_find? hfound)))

/-- A second update that gives the document back gives a whole store on disk back. -/
lemma Durable.update_update {d : Durable} {doc patch back : Fields}
    (htwins : Twins issued docs (Durable.table d.tables c))
    (hfound : docs.find? (hasId · id) = some doc) (hlegible : Legible (patched doc patch))
    (hback : patched (patched doc patch) back = doc) (fresh' : String) :
    ((d.perform fresh (.update c id patch)).2.perform fresh' (.update c id back)).2 = d := by
  have hnow : Durable.table
      (d.tables.insert c ((Durable.table d.tables c).insert id
        (Durable.encode (patched doc patch)))) c =
      (Durable.table d.tables c).insert id (Durable.encode (patched doc patch)) := by simp
  have htwins' := htwins.patch hfound hlegible
  rw [← hnow] at htwins'
  have hfound' := htwins'.lookup_of_find? (find?_map_patchedAt hfound)
  have hstored : (Durable.table d.tables c).get? id = some (Durable.encode doc) := by
    rw [htwins.stored, hfound]
    rfl
  have hrestored : ((Durable.table d.tables c).insert id (Durable.encode (patched doc patch))).insert
      id (Durable.encode doc) = Durable.table d.tables c :=
    KeyMap.insert_insert.trans (KeyMap.insert_of_get? hstored)
  have hsecond := Durable.perform_update (s := ⟨d.tables.insert c
    ((Durable.table d.tables c).insert id (Durable.encode (patched doc patch)))⟩) hfound' fresh' back
  dsimp only at hsecond
  rw [hnow, hback, hrestored] at hsecond
  rw [Durable.perform_update (htwins.lookup_of_find? hfound), hsecond]
  exact congrArg Durable.mk
    (KeyMap.insert_insert.trans (KeyMap.insert_of_get? (get?_tables_of_get? hstored)))

/-! ### Collections of documents -/

namespace Keeps

/-- The documents have twins in some table. -/
lemma exists_twins (h : Keeps c issued docs s) : ∃ t, Twins issued docs t := by
  cases h with
  | volatile hdocs htwins => exact ⟨_, htwins⟩
  | durable htwins => exact ⟨_, htwins⟩

lemma nodup (h : Keeps c issued docs s) : (docs.map (·.string? idField)).Nodup := by
  obtain ⟨t, htwins⟩ := h.exists_twins
  exact htwins.nodup

lemma mono (h : Keeps c issued docs s) (hsub : issued ⊆ more) : Keeps c more docs s := by
  cases h with
  | volatile hdocs htwins => exact .volatile hdocs (htwins.mono hsub)
  | durable htwins => exact .durable (htwins.mono hsub)

/-! ### Reading -/

lemma perform_get (h : Keeps c issued docs s) (hvalid : isCollection c = true) :
    s.perform fresh (.get c id) = (.ok (docs.find? (hasId · id)), s) := by
  change isCollection (Op.collection (.get c id)) = true at hvalid
  cases h with
  | volatile hdocs htwins =>
    rw [perform_volatile hvalid, ← hdocs]
    rfl
  | durable htwins =>
    rw [perform_durable hvalid, Durable.perform_get, htwins.lookup_eq]
    rfl

/-- A search finds the documents that match, in some order. -/
lemma perform_find (h : Keeps c issued docs s) (hvalid : isCollection c = true) (filter : Fields) :
    ∃ found : List Fields, s.perform fresh (.find c filter) = (.ok found, s) ∧
      found.Perm (docs.filter (·.matchesFilter filter)) := by
  change isCollection (Op.collection (.find c filter)) = true at hvalid
  cases h with
  | volatile hdocs htwins =>
    rw [perform_volatile hvalid, ← hdocs]
    exact ⟨_, rfl, .refl _⟩
  | @durable d htwins =>
    obtain ⟨read, hread, hperm⟩ := htwins.exists_decodeAll
    rw [perform_durable hvalid, Durable.perform_find, Durable.found, hread]
    exact ⟨_, rfl, hperm.filter _⟩

/-- A search for one document finds one exactly if there is one that matches. -/
lemma perform_findOne (h : Keeps c issued docs s) (hvalid : isCollection c = true)
    (filter : Fields) :
    ∃ found : Option Fields, s.perform fresh (.findOne c filter) = (.ok found, s) ∧
      found.isSome = docs.any (·.matchesFilter filter) := by
  change isCollection (Op.collection (.findOne c filter)) = true at hvalid
  cases h with
  | volatile hdocs htwins =>
    rw [perform_volatile hvalid, ← hdocs]
    exact ⟨_, rfl, List.isSome_find?⟩
  | @durable d htwins =>
    obtain ⟨read, hread, hperm⟩ := htwins.exists_decodeAll
    rw [perform_durable hvalid, Durable.perform_findOne, Durable.found, hread]
    refine ⟨_, rfl, ?_⟩
    rw [List.head?_filter, List.isSome_find?]
    exact hperm.any_eq

/-! ### Writing -/

lemma perform_insert (h : Keeps c issued docs s) (hvalid : isCollection c = true) {doc : Fields}
    (hfresh : fresh ∉ issued) (hlegible : Legible (withId doc fresh)) :
    ∃ s', s.perform fresh (.insert c doc) = (.ok fresh, s') ∧
      Keeps c (issued ++ [fresh]) (docs ++ [withId doc fresh]) s' := by
  change isCollection (Op.collection (.insert c doc)) = true at hvalid
  cases h with
  | @volatile v t hdocs htwins =>
    rw [perform_volatile hvalid]
    refine ⟨_, rfl, .volatile ?_ (htwins.insert hfresh hlegible)⟩
    simp [Volatile.perform, hdocs]
  | @durable d htwins =>
    rw [perform_durable hvalid, Durable.perform_insert]
    refine ⟨_, rfl, .durable ?_⟩
    simpa using htwins.insert hfresh hlegible

lemma perform_update (h : Keeps c issued docs s) (hvalid : isCollection c = true)
    {doc patch : Fields}
    (hfound : docs.find? (hasId · id) = some doc) (hlegible : Legible (patched doc patch)) :
    ∃ s', s.perform fresh (.update c id patch) = (.ok (patched doc patch), s') ∧
      Keeps c issued (docs.map (patchedAt id patch)) s' := by
  change isCollection (Op.collection (.update c id patch)) = true at hvalid
  cases h with
  | @volatile v t hdocs htwins =>
    subst hdocs
    rw [perform_volatile hvalid, Volatile.perform_update htwins hfound]
    exact ⟨_, rfl, .volatile (by simp) (htwins.patch hfound hlegible)⟩
  | @durable d htwins =>
    rw [perform_durable hvalid, Durable.perform_update (htwins.lookup_of_find? hfound)]
    refine ⟨_, rfl, .durable ?_⟩
    simpa using htwins.patch hfound hlegible

/-- A document that is not there is not updated. -/
lemma perform_update_of_none (h : Keeps c issued docs s) (hvalid : isCollection c = true)
    {patch : Fields} (hfound : docs.find? (hasId · id) = none) :
    s.perform fresh (.update c id patch) = (.error (.notFound c id), s) := by
  change isCollection (Op.collection (.update c id patch)) = true at hvalid
  cases h with
  | @volatile v t hdocs htwins =>
    have hmemory : v.perform fresh (.update c id patch) = (.error (.notFound c id), v) := by
      rw [Volatile.perform, hdocs, patchFirst_eq htwins.nodup, hfound]
      rfl
    rw [perform_volatile hvalid, hmemory]
  | @durable d htwins =>
    have hlookup : Durable.lookup (Durable.table d.tables c) id = .ok none :=
      hfound ▸ htwins.lookup_eq id
    rw [perform_durable hvalid, Durable.perform_update_of_none hlookup]

lemma perform_delete (h : Keeps c issued docs s) (hvalid : isCollection c = true) :
    ∃ s', s.perform fresh (.delete c id) = (.ok (docs.any (hasId · id)), s') ∧
      Keeps c issued (docs.filter (! hasId · id)) s' := by
  change isCollection (Op.collection (.delete c id)) = true at hvalid
  cases h with
  | @volatile v t hdocs htwins =>
    rw [perform_volatile hvalid, Volatile.perform, hdocs]
    cases hany : docs.any (hasId · id) with
    | true => exact ⟨_, rfl, .volatile (by simp) htwins.delete⟩
    | false =>
      have hsame : docs.filter (! hasId · id) = docs := List.filter_eq_self.2 (by simpa using hany)
      exact ⟨_, rfl, .volatile (by rw [hsame]; exact hdocs) htwins.delete⟩
  | @durable d htwins =>
    have hcontains : (Durable.table d.tables c).contains id = docs.any (hasId · id) := by
      rw [KeyMap.contains, htwins.stored, Option.isSome_map, List.isSome_find?]
    rw [perform_durable hvalid, Durable.perform_delete, hcontains]
    refine ⟨_, rfl, .durable ?_⟩
    simpa using htwins.delete

/-- A second update that gives the document back gives the whole store back. -/
lemma update_update (h : Keeps c issued docs s) (hvalid : isCollection c = true)
    {doc patch back : Fields} (hfound : docs.find? (hasId · id) = some doc)
    (hlegible : Legible (patched doc patch)) (hback : patched (patched doc patch) back = doc)
    (fresh' : String) :
    ((s.perform fresh (.update c id patch)).2.perform fresh' (.update c id back)).2 = s := by
  have hvalid' : isCollection (Op.collection (.update c id back)) = true := hvalid
  change isCollection (Op.collection (.update c id patch)) = true at hvalid
  cases h with
  | volatile hdocs htwins =>
    subst hdocs
    rw [perform_volatile hvalid]
    dsimp only
    rw [perform_volatile hvalid']
    exact congrArg Store.volatile (Volatile.update_update htwins hfound hlegible hback fresh')
  | durable htwins =>
    rw [perform_durable hvalid]
    dsimp only
    rw [perform_durable hvalid']
    exact congrArg Store.durable (Durable.update_update htwins hfound hlegible hback fresh')

end Keeps

/-! ### Stores of one kind -/

/-- Whether the store is on disk. -/
def isDurable : Store → Bool
  | volatile _ => false
  | durable _ => true

/-- No operation turns a store into one of the other kind. -/
lemma isDurable_perform (s : Store) (fresh : String) (op : Op) :
    (s.perform fresh op).2.isDurable = s.isDurable := by
  by_cases hvalid : isCollection op.collection = true
  · cases s with
    | volatile v => rw [perform_volatile hvalid]; rfl
    | durable d => rw [perform_durable hvalid]; rfl
  · rw [perform_of_not_valid (by simpa using hvalid)]

/-- A transaction that fails changes nothing. -/
lemma Durable.snd_transactOn_of_error {α : Type} {fails : Failures} {d : Durable} {other : String}
    {work : KeyMap String → Except StoreError (α × KeyMap String)} {e : StoreError}
    (h : (d.transactOn fails other work).1 = .error e) : (d.transactOn fails other work).2 = d := by
  rcases d.transactOn_cases fails other work with ⟨_, hfailed⟩ | ⟨a, t, -, hdone⟩
  · rw [hfailed]
  · rw [hdone] at h
    cases h

/-- An operation that fails changes nothing, whatever it fails for. -/
lemma snd_perform_of_error {op : Op} {fails : Failures} {e : StoreError}
    (h : (s.perform fresh op fails).1 = .error e) : (s.perform fresh op fails).2 = s := by
  by_cases hvalid : isCollection op.collection = true
  · cases s with
    | volatile v =>
      rw [perform_volatile hvalid] at h ⊢
      cases op with
      | insert _ _ => cases h
      | get _ _ | find _ _ | findOne _ _ => rfl
      | update c id patch =>
        cases hpatch : Volatile.patchFirst id patch (v.docs c) with
        | none => simp [Volatile.perform, hpatch]
        | some found => simp [Volatile.perform, hpatch] at h
      | delete c id =>
        simp only [Volatile.perform] at h
        split at h <;> cases h
    | durable d =>
      rw [perform_durable hvalid] at h ⊢
      cases op with
      | insert _ _ | update _ _ _ | delete _ _ =>
        exact congrArg Store.durable (Durable.snd_transactOn_of_error h)
      | get _ _ | find _ _ | findOne _ _ => rfl
  · rw [perform_of_not_valid (by simpa using hvalid)]

/-- An insertion into a valid collection succeeds. -/
lemma fst_perform_insert (hvalid : isCollection c = true) (s : Store) (fresh : String)
    (doc : Fields) : (s.perform fresh (.insert c doc)).1 = .ok fresh := by
  change isCollection (Op.collection (.insert c doc)) = true at hvalid
  cases s with
  | volatile v => rw [perform_volatile hvalid, Volatile.perform]
  | durable d => rw [perform_durable hvalid, Durable.perform_insert]

lemma snd_perform_get (s : Store) (fresh c id : String) :
    (s.perform fresh (.get c id)).2 = s := by
  by_cases hvalid : isCollection (Op.collection (.get c id)) = true
  · cases s with
    | volatile v => rw [perform_volatile hvalid, Volatile.perform]
    | durable d => rw [perform_durable hvalid, Durable.perform]
  · rw [perform_of_not_valid (by simpa using hvalid)]

/-- Two stores of one kind that keep the same documents give the same when they are searched. -/
lemma Keeps.find_eq (h : Keeps c issued docs s) {s' : Store} (h' : Keeps c more docs s')
    (hkind : s'.isDurable = s.isDurable) (hvalid : isCollection c = true) (filter : Fields) :
    (s'.perform fresh (.find c filter)).1 = (s.perform fresh (.find c filter)).1 := by
  change isCollection (Op.collection (.find c filter)) = true at hvalid
  cases h with
  | volatile hdocs htwins =>
    cases h' with
    | volatile hdocs' htwins' =>
      rw [perform_volatile hvalid, perform_volatile hvalid]
      simp only [Volatile.perform, hdocs, hdocs']
    | durable htwins' => cases hkind
  | @durable d htwins =>
    cases h' with
    | volatile hdocs' htwins' => cases hkind
    | @durable d' htwins' =>
      have htable : Durable.table d'.tables c = Durable.table d.tables c :=
        KeyMap.ext_get? fun id => (htwins'.stored id).trans (htwins.stored id).symm
      rw [perform_durable hvalid, perform_durable hvalid, Durable.perform_find, Durable.perform_find,
        htable]

/-! ### Other collections -/

lemma Volatile.docs_perform_of_ne {v : Volatile} {op : Op} (hne : op.collection ≠ c) :
    (v.perform fresh op).2.docs c = v.docs c := by
  have hset (docs : List Fields) : (v.setDocs op.collection docs).docs c = v.docs c := by
    rw [docs_setDocs, if_neg hne.symm]
  cases op with
  | insert _ _ => exact hset _
  | update _ id patch =>
    rw [Volatile.perform]
    split
    · exact hset _
    · rfl
  | delete _ id =>
    rw [Volatile.perform]
    split
    · exact hset _
    · rfl
  | get _ _ | find _ _ | findOne _ _ => rfl

lemma Durable.table_transactOn_of_ne {α : Type} {fails : Failures} {d : Durable} {other : String}
    {work : KeyMap String → Except StoreError (α × KeyMap String)} (hne : other ≠ c) :
    table (d.transactOn fails other work).2.tables c = table d.tables c := by
  rcases d.transactOn_cases fails other work with ⟨_, hfailed⟩ | ⟨a, t, -, hdone⟩
  · rw [hfailed]
  · rw [hdone, table_insert, if_neg hne.symm]

lemma Durable.table_perform_of_ne {d : Durable} {op : Op} (hne : op.collection ≠ c) :
    table (d.perform fresh op).2.tables c = table d.tables c := by
  cases op with
  | insert _ _ | update _ _ _ | delete _ _ => exact table_transactOn_of_ne hne
  | get _ _ | find _ _ | findOne _ _ => rfl

/-- Operations on other collections change nothing. -/
lemma Keeps.of_ne (h : Keeps c issued docs s) {op : Op} (hne : op.collection ≠ c) :
    Keeps c issued docs (s.perform fresh op).2 := by
  by_cases hvalid : isCollection op.collection = true
  · cases h with
    | volatile hdocs htwins =>
      rw [perform_volatile hvalid]
      exact .volatile ((Volatile.docs_perform_of_ne hne).trans hdocs) htwins
    | durable htwins =>
      rw [perform_durable hvalid]
      refine .durable ?_
      rwa [Durable.table_perform_of_ne hne]
  · rwa [perform_of_not_valid (by simpa using hvalid)]

end Store

end Synchrony

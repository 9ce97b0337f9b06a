import Mathlib
import Synchrony.Proofs.Store.Collection

/-!
# The two kinds of stores are one store

A store in memory and one on disk that start empty and go through the same operations give the same
results, however often the one on disk is closed and opened again (`stores_agree`). Each document stays
under the identifier that the store gave it, and an operation that fails changes nothing. What is assumed
is that identifiers are fresh and that the stored texts read back as the documents.
-/

namespace Synchrony.Store

/-! ### Results -/

namespace Op

/-- The results are the same, up to the order of documents and the choice of one among several. -/
def Same : (op : Op) → op.Result → op.Result → Prop
  | find _ _, a, b => a.Perm b
  | findOne _ _, a, b => a.isSome = b.isSome
  | insert _ _, a, b => a = b
  | get _ _, a, b => a = b
  | update _ _ _, a, b => a = b
  | delete _ _, a, b => a = b

/-- Both operations succeed with the same result, or fail with the same error. -/
def Agree (op : Op) : Except StoreError op.Result → Except StoreError op.Result → Prop
  | .ok a, .ok b => op.Same a b
  | .error e, .error f => e = f
  | _, _ => False

/-- The documents that an operation stores or gives back. -/
def given : (op : Op) → op.Result → List Fields
  | insert _ doc, id => [withId doc id]
  | get _ _, doc => doc.toList
  | update _ _ _, doc => [doc]
  | delete _ _, _ => []
  | find _ _, docs => docs
  | findOne _ _, doc => doc.toList

/-- The identifier that an operation names, if it names one. -/
def target? : Op → Option String
  | get _ id => some id
  | update _ id _ => some id
  | delete _ id => some id
  | _ => none

end Op

/-! ### Runs -/

/-- An operation, with the identifier for a new document; or the store is closed and opened again. -/
inductive Step where
  | perform (fresh : String) (op : Op)
  | reopen

/-- Whether the step is an operation. -/
def Step.isOperation : Step → Bool
  | perform _ _ => true
  | reopen => false

/-- The identifier that a step gives to a new document of a collection. -/
def Step.issuedIn? (collection : String) : Step → Option String
  | perform fresh op => if takesId op && op.collection = collection then some fresh else none
  | reopen => none

/-- The identifiers that steps give to new documents of a collection. -/
def issuedIn (collection : String) (steps : List Step) : List String :=
  steps.filterMap (Step.issuedIn? collection)

/-- What a step makes of a store. -/
def advance (s : Store) : Step → Store
  | .perform fresh op => (s.perform fresh op).2
  | .reopen => s.reopened

/-- The store in memory after the operations among some steps; it is never closed. -/
def inMemory (steps : List Step) : Store :=
  (steps.filter Step.isOperation).foldl advance (.volatile {})

/-- The store on disk after some steps. -/
def onDisk (steps : List Step) : Store := steps.foldl advance (.durable {})

/-- A document of a collection: one that a search without conditions finds. -/
def Holds (s : Store) (collection : String) (doc : Fields) : Prop :=
  ∃ docs : List Fields, (s.perform "" (.find collection .empty)).1 = .ok docs ∧ doc ∈ docs

/-! ### Collections that are twins -/

@[simp] lemma docs_setDocs (v : Volatile) (c : String) (docs : List Fields) (c' : String) :
    (v.setDocs c docs).docs c' = if c' = c then docs else v.docs c' := by
  rw [Volatile.setDocs, Volatile.docs, KeyMap.get?_insert]
  split
  · rfl
  · rfl

@[simp] lemma table_insert (tables : Tables) (c : String) (t : KeyMap String) (c' : String) :
    Durable.table (tables.insert c t) c' = if c' = c then t else Durable.table tables c' := by
  rw [Durable.table, KeyMap.get?_insert]
  split
  · rfl
  · rfl

/-- Each collection has twins in both stores. -/
def Mirror (issued : String → List String) (v : Volatile) (d : Durable) : Prop :=
  ∀ c, Twins (issued c) (v.docs c) (Durable.table d.tables c)

namespace Mirror

variable {issued : String → List String} {v : Volatile} {d : Durable} {c : String}

/-- Only one collection is changed. -/
lemma set (h : Mirror issued v d) {more : String → List String} {t : KeyMap String} {w : Volatile}
    (hsub : ∀ c, issued c ⊆ more c) (hothers : ∀ c' ≠ c, w.docs c' = v.docs c')
    (hc : Twins (more c) (w.docs c) t) : Mirror more w ⟨d.tables.insert c t⟩ := by
  intro c'
  rw [table_insert]
  split
  · rename_i heq
    rwa [heq]
  · rename_i hne
    rw [hothers c' hne]
    exact (h c').mono (hsub c')

/-- A search finds the same documents in both stores. -/
lemma exists_found (h : Mirror issued v d) (c : String) (filter : Fields) :
    ∃ docs, Durable.found (Durable.table d.tables c) filter = .ok docs ∧
      docs.Perm ((v.docs c).filter (·.matchesFilter filter)) := by
  obtain ⟨docs, hdocs, hperm⟩ := (h c).exists_decodeAll
  refine ⟨docs.filter (·.matchesFilter filter), ?_, hperm.filter _⟩
  rw [Durable.found, hdocs]
  rfl

end Mirror

/--
What an operation comes to on two stores: `x` and `y` are its results, with what it makes of the store
in memory and of the one on disk.
-/
structure Alike (issued : String → List String) (v : Volatile) (d : Durable) (op : Op)
    (x : Except StoreError op.Result × Volatile) (y : Except StoreError op.Result × Durable) :
    Prop where
  agree : op.Agree x.1 y.1
  unchanged : ∀ e, x.1 = .error e → x.2 = v ∧ y.2 = d
  mirror : Mirror issued x.2 y.2
  /-- What is given by one of the stores is a document of both, under the identifier that is named. -/
  given : ∀ r, x.1 = .ok r ∨ y.1 = .ok r → ∀ doc ∈ op.given r,
    doc ∈ x.2.docs op.collection ∧ ∀ id, op.target? = some id → doc.string? idField = some id

namespace Mirror

variable {issued : String → List String} {v : Volatile} {d : Durable} {c id fresh : String}

lemma alike_insert (h : Mirror issued v d) {more : String → List String} {doc : Fields}
    (hsub : ∀ c, issued c ⊆ more c) (hmore : more c = issued c ++ [fresh]) (hfresh : fresh ∉ issued c)
    (hlegible : ∀ doc' ∈ (v.perform fresh (.insert c doc)).2.docs c, Legible doc') :
    Alike more v d (.insert c doc) (v.perform fresh (.insert c doc))
      (d.perform fresh (.insert c doc)) := by
  have hdocs : (v.perform fresh (.insert c doc)).2.docs c = v.docs c ++ [withId doc fresh] := by
    simp [Volatile.perform]
  have hmem : withId doc fresh ∈ (v.perform fresh (.insert c doc)).2.docs c := by simp [hdocs]
  have htwins := (h c).insert hfresh (hlegible _ hmem)
  rw [← hmore, ← hdocs] at htwins
  rw [Durable.perform_insert]
  refine ⟨rfl, by rintro e ⟨⟩, h.set hsub (fun c' hne => ?_) htwins, ?_⟩
  · simp [Volatile.perform, hne]
  · rintro r (⟨⟨⟩⟩ | ⟨⟨⟩⟩) given hgiven
    all_goals
      obtain rfl := List.mem_singleton.1 hgiven
      exact ⟨hmem, by rintro id ⟨⟩⟩

lemma alike_get (h : Mirror issued v d) :
    Alike issued v d (.get c id) (v.perform fresh (.get c id)) (d.perform fresh (.get c id)) := by
  rw [Durable.perform_get, (h c).lookup_eq]
  refine ⟨rfl, by rintro e ⟨⟩, h, ?_⟩
  rintro r (⟨⟨⟩⟩ | ⟨⟨⟩⟩) doc hdoc
  all_goals
    obtain ⟨hmem, hid⟩ := (find?_hasId_eq_some_iff (h c).nodup).1 (Option.mem_toList.1 hdoc)
    exact ⟨hmem, by rintro id ⟨⟩; exact hid⟩

/-- An update of a document that is there. -/
lemma alike_update_of_some (h : Mirror issued v d) {patch doc : Fields}
    (hfound : (v.docs c).find? (hasId · id) = some doc)
    (hlegible : ∀ doc' ∈ (v.perform fresh (.update c id patch)).2.docs c, Legible doc') :
    Alike issued v d (.update c id patch) (v.perform fresh (.update c id patch))
      (d.perform fresh (.update c id patch)) := by
  have hmemory : v.perform fresh (.update c id patch) =
      (.ok (patched doc patch), v.setDocs c ((v.docs c).map (patchedAt id patch))) := by
    rw [Volatile.perform, patchFirst_eq (h c).nodup, hfound]
    rfl
  have hlookup : Durable.lookup (Durable.table d.tables c) id = .ok (some doc) :=
    hfound ▸ (h c).lookup_eq id
  have hdocs : (v.setDocs c ((v.docs c).map (patchedAt id patch))).docs c =
      (v.docs c).map (patchedAt id patch) := by simp
  have hid := string?_of_find? hfound
  have hmem : patched doc patch ∈ (v.docs c).map (patchedAt id patch) :=
    List.mem_map.2 ⟨doc, List.mem_of_find?_eq_some hfound, if_pos (hasId_iff.2 hid)⟩
  rw [hmemory, hdocs] at hlegible
  have htwins := (h c).patch hfound (hlegible _ hmem)
  rw [← hdocs] at htwins hmem
  rw [hmemory, Durable.perform_update hlookup]
  refine ⟨rfl, by rintro e ⟨⟩, h.set (fun c => List.Subset.refl _) (fun c' hne => ?_) htwins, ?_⟩
  · simp [hne]
  · rintro r (⟨⟨⟩⟩ | ⟨⟨⟩⟩) given hgiven
    all_goals
      obtain rfl := List.mem_singleton.1 hgiven
      exact ⟨hmem, by rintro id ⟨⟩; rwa [string?_patched]⟩

/-- An update of a document that is not there fails. -/
lemma alike_update_of_none (h : Mirror issued v d) {patch : Fields}
    (hfound : (v.docs c).find? (hasId · id) = none) :
    Alike issued v d (.update c id patch) (v.perform fresh (.update c id patch))
      (d.perform fresh (.update c id patch)) := by
  have hmemory : v.perform fresh (.update c id patch) = (.error (.notFound c id), v) := by
    rw [Volatile.perform, patchFirst_eq (h c).nodup, hfound]
    rfl
  have hlookup : Durable.lookup (Durable.table d.tables c) id = .ok none :=
    hfound ▸ (h c).lookup_eq id
  rw [hmemory, Durable.perform_update_of_none hlookup]
  exact ⟨rfl, fun _ _ => ⟨rfl, rfl⟩, h, by rintro r (⟨⟨⟩⟩ | ⟨⟨⟩⟩)⟩

lemma alike_delete (h : Mirror issued v d) :
    Alike issued v d (.delete c id) (v.perform fresh (.delete c id))
      (d.perform fresh (.delete c id)) := by
  have hmemory : (v.perform fresh (.delete c id)).1 = .ok ((v.docs c).any (hasId · id)) ∧
      ∀ c', (v.perform fresh (.delete c id)).2.docs c' =
        if c' = c then (v.docs c).filter (! hasId · id) else v.docs c' := by
    rw [Volatile.perform]
    split
    · rename_i hany
      exact ⟨by rw [hany], docs_setDocs v c _⟩
    · rename_i hany
      refine ⟨by rw [(Bool.not_eq_true _).mp hany], fun c' => ?_⟩
      split
      · rename_i heq
        -- nothing is deleted, and the list stays as it is
        rw [heq, List.filter_eq_self.2]
        simpa using hany
      · rfl
  have hcontains : (Durable.table d.tables c).contains id = (v.docs c).any (hasId · id) := by
    rw [KeyMap.contains, (h c).stored, Option.isSome_map, List.isSome_find?]
  obtain ⟨hresult, hdocs⟩ := hmemory
  have htwins : Twins (issued c) ((v.perform fresh (.delete c id)).2.docs c)
      ((Durable.table d.tables c).erase id) := by
    rw [hdocs, if_pos rfl]
    exact (h c).delete
  rw [Durable.perform_delete, hcontains]
  refine ⟨?_, ?_, h.set (fun c => List.Subset.refl _) (fun c' hne => ?_) htwins, ?_⟩
  · rw [hresult]
    rfl
  · intro e he
    rw [hresult] at he
    cases he
  · rw [hdocs, if_neg hne]
  · rintro r - doc ⟨⟩

lemma alike_find (h : Mirror issued v d) {filter : Fields} :
    Alike issued v d (.find c filter) (v.perform fresh (.find c filter))
      (d.perform fresh (.find c filter)) := by
  obtain ⟨docs, hdocs, hperm⟩ := h.exists_found c filter
  rw [Durable.perform_find, hdocs]
  refine ⟨hperm.symm, by rintro e ⟨⟩, h, ?_⟩
  rintro r (⟨⟨⟩⟩ | ⟨⟨⟩⟩) doc hdoc
  · exact ⟨List.mem_of_mem_filter hdoc, by rintro id ⟨⟩⟩
  · exact ⟨List.mem_of_mem_filter (hperm.mem_iff.1 hdoc), by rintro id ⟨⟩⟩

lemma alike_findOne (h : Mirror issued v d) {filter : Fields} :
    Alike issued v d (.findOne c filter) (v.perform fresh (.findOne c filter))
      (d.perform fresh (.findOne c filter)) := by
  obtain ⟨docs, hdocs, hperm⟩ := h.exists_found c filter
  rw [Durable.perform_findOne, hdocs]
  refine ⟨?_, by rintro e ⟨⟩, h, ?_⟩
  · change ((v.docs c).find? (·.matchesFilter filter)).isSome = docs.head?.isSome
    rw [← List.head?_filter, Bool.eq_iff_iff, List.isSome_head?, List.isSome_head?]
    exact not_congr ⟨fun h => List.perm_nil.1 (h ▸ hperm), fun h => List.nil_perm.1 (h ▸ hperm)⟩
  · rintro r (⟨⟨⟩⟩ | ⟨⟨⟩⟩) doc hdoc
    · exact ⟨List.mem_of_find?_eq_some (Option.mem_toList.1 hdoc), by rintro id ⟨⟩⟩
    · have hmem := hperm.mem_iff.1 (List.mem_of_mem_head? (Option.mem_toList.1 hdoc))
      exact ⟨List.mem_of_mem_filter hmem, by rintro id ⟨⟩⟩

/-- Any operation on a collection with a valid name. -/
lemma alike (h : Mirror issued v d) {op : Op}
    (hfresh : ∀ id, (Step.perform fresh op).issuedIn? op.collection = some id →
      id ∉ issued op.collection)
    (hlegible : ∀ doc ∈ (v.perform fresh op).2.docs op.collection, Legible doc)
    (hvalid : isCollection op.collection = true) :
    Alike (fun c => issued c ++ ((Step.perform fresh op).issuedIn? c).toList) v d op
      (v.perform fresh op) (d.perform fresh op) := by
  have hsame (hop : takesId op = false) :
      (fun c => issued c ++ ((Step.perform fresh op).issuedIn? c).toList) = issued := by
    funext c
    simp [Step.issuedIn?, hop]
  cases op with
  | insert c doc =>
    have hmore : (Step.perform fresh (.insert c doc)).issuedIn? c = some fresh := by
      rw [Step.issuedIn?, takesId, show isCollection c = true from hvalid]
      simp [Op.collection]
    refine h.alike_insert (fun c => List.subset_append_left _ _) ?_ (hfresh fresh hmore) hlegible
    rw [hmore]
    rfl
  | get c id =>
    rw [hsame rfl]
    exact h.alike_get
  | update c id patch =>
    rw [hsame rfl]
    cases hfound : (v.docs c).find? (hasId · id) with
    | none => exact h.alike_update_of_none hfound
    | some doc => exact h.alike_update_of_some hfound hlegible
  | delete c id =>
    rw [hsame rfl]
    exact h.alike_delete
  | find c filter =>
    rw [hsame rfl]
    exact h.alike_find
  | findOne c filter =>
    rw [hsame rfl]
    exact h.alike_findOne

end Mirror

/-! ### Stores that went through the same operations -/

section Perform

variable {s : Store} {v : Volatile} {d : Durable} {fresh : String} {op : Op} {fails : Failures}

lemma perform_of_not_valid (h : isCollection op.collection = false) :
    s.perform fresh op fails = (.error (.invalidCollection op.collection), s) := by
  simp [perform, h]

lemma perform_volatile (h : isCollection op.collection = true) :
    (volatile v).perform fresh op fails =
      ((v.perform fresh op).1, volatile (v.perform fresh op).2) := by
  simp [perform, h]

lemma perform_durable (h : isCollection op.collection = true) :
    (durable d).perform fresh op fails =
      ((d.perform fresh op fails).1, durable (d.perform fresh op fails).2) := by
  simp [perform, h]

lemma holds_volatile {c : String} {doc : Fields} (h : isCollection c = true) :
    (volatile v).Holds c doc ↔ doc ∈ v.docs c := by
  have hvalid : isCollection (Op.find c .empty).collection = true := h
  have hfind : ((volatile v).perform "" (.find c .empty)).1 = .ok (v.docs c) := by
    rw [perform_volatile hvalid]
    exact congrArg Except.ok (List.filter_eq_self.2 fun _ _ => rfl)
  rw [Holds, hfind]
  constructor
  · rintro ⟨docs, ⟨⟩, hdoc⟩
    exact hdoc
  · exact fun hdoc => ⟨_, rfl, hdoc⟩

lemma mem_docs_of_holds {c : String} {doc : Fields} (h : (volatile v).Holds c doc) :
    doc ∈ v.docs c := by
  cases hvalid : isCollection c with
  | true => exact (holds_volatile hvalid).1 h
  | false =>
    obtain ⟨docs, hdocs, -⟩ := h
    have hnot : isCollection (Op.find c .empty).collection = false := hvalid
    rw [perform_of_not_valid hnot] at hdocs
    cases hdocs

end Perform

section Runs

variable {steps front back : List Step} {fresh : String} {op : Op}

lemma issuedIn_concat (c : String) (steps : List Step) (step : Step) :
    issuedIn c (steps ++ [step]) = issuedIn c steps ++ (step.issuedIn? c).toList := by
  rw [issuedIn, List.filterMap_append, issuedIn]
  cases hstep : step.issuedIn? c <;> simp [hstep]

lemma inMemory_concat (steps : List Step) (fresh : String) (op : Op) :
    inMemory (steps ++ [.perform fresh op]) = ((inMemory steps).perform fresh op).2 := by
  rw [inMemory, List.filter_append, List.foldl_append]
  rfl

lemma onDisk_concat (steps : List Step) (step : Step) :
    onDisk (steps ++ [step]) = (onDisk steps).advance step := by
  simp [onDisk]

/-- Every document that the store in memory comes to hold can be read back from its text. -/
def Readable (steps : List Step) : Prop :=
  ∀ front, front <+: steps → ∀ c doc, (inMemory front).Holds c doc → Legible doc

lemma Readable.of_isPrefix (h : Readable steps) (hfront : front <+: steps) : Readable front :=
  fun first hfirst => h first (hfirst.trans hfront)

/-- One more operation on stores that went through the same ones. -/
lemma alike_of_mirror {v : Volatile} {d : Durable}
    (hfresh : (issuedIn op.collection (steps ++ [.perform fresh op])).Nodup)
    (hreadable : Readable (steps ++ [.perform fresh op])) (hmemory : inMemory steps = .volatile v)
    (h : Mirror (issuedIn · steps) v d) (hvalid : isCollection op.collection = true) :
    Alike (issuedIn · (steps ++ [.perform fresh op])) v d op (v.perform fresh op)
      (d.perform fresh op) := by
  simp only [issuedIn_concat] at hfresh ⊢
  refine h.alike (fun id hid hold => ?_) (fun doc hdoc => ?_) hvalid
  · rw [hid] at hfresh
    exact (List.nodup_append.1 hfresh).2.2 id hold id (by simp) rfl
  · refine hreadable _ (List.prefix_refl _) op.collection doc ?_
    rw [inMemory_concat, hmemory, perform_volatile hvalid]
    exact (holds_volatile hvalid).2 hdoc

/-- After the same steps both stores hold the same documents. -/
lemma exists_mirror (hfresh : ∀ c, (issuedIn c steps).Nodup) (hreadable : Readable steps) :
    ∃ v d, inMemory steps = .volatile v ∧ onDisk steps = .durable d ∧
      Mirror (issuedIn · steps) v d := by
  induction steps using List.reverseRecOn with
  | nil => exact ⟨{}, {}, rfl, rfl, fun _ => twins_empty⟩
  | append_singleton steps step ih =>
    have hfront : steps <+: steps ++ [step] := List.prefix_append _ _
    have hbefore (c : String) : (issuedIn c steps).Nodup := by
      have hnodup := hfresh c
      rw [issuedIn_concat] at hnodup
      exact hnodup.of_append_left
    obtain ⟨v, d, hmemory, hdisk, h⟩ := ih hbefore (hreadable.of_isPrefix hfront)
    cases step with
    | reopen =>
      refine ⟨v, d, ?_, ?_, ?_⟩
      · simpa [inMemory, Step.isOperation] using hmemory
      · rw [onDisk_concat, hdisk]
        rfl
      · simpa [issuedIn_concat, Step.issuedIn?] using h
    | perform fresh op =>
      cases hvalid : isCollection op.collection with
      | true =>
        have halike := alike_of_mirror (hfresh _) hreadable hmemory h hvalid
        refine ⟨_, _, ?_, ?_, halike.mirror⟩
        · rw [inMemory_concat, hmemory, perform_volatile hvalid]
        · rw [onDisk_concat, hdisk, advance, perform_durable hvalid]
      | false =>
        have htakes : takesId op = false := by
          cases op <;> first | rfl | exact hvalid
        refine ⟨v, d, ?_, ?_, ?_⟩
        · rw [inMemory_concat, perform_of_not_valid hvalid, hmemory]
        · rw [onDisk_concat, advance, perform_of_not_valid hvalid, hdisk]
        · simpa [issuedIn_concat, Step.issuedIn?, htakes] using h

lemma exists_onDisk_eq (steps : List Step) : ∃ d, onDisk steps = .durable d := by
  induction steps using List.reverseRecOn with
  | nil => exact ⟨{}, rfl⟩
  | append_singleton steps step ih =>
    obtain ⟨d, hdisk⟩ := ih
    rw [onDisk_concat, hdisk]
    cases step with
    | reopen => exact ⟨d, rfl⟩
    | perform fresh op =>
      cases hvalid : isCollection op.collection with
      | true => exact ⟨_, by rw [advance, perform_durable hvalid]⟩
      | false => exact ⟨d, by rw [advance, perform_of_not_valid hvalid]⟩

/-- Closing the store on disk and opening it again changes nothing. -/
lemma onDisk_filter (steps : List Step) : onDisk (steps.filter Step.isOperation) = onDisk steps := by
  induction steps using List.reverseRecOn with
  | nil => rfl
  | append_singleton steps step ih =>
    rw [List.filter_append, onDisk_concat]
    cases step with
    | reopen =>
      obtain ⟨d, hdisk⟩ := exists_onDisk_eq steps
      rw [show [Step.reopen].filter Step.isOperation = [] from rfl, List.append_nil, ih, hdisk]
      rfl
    | perform fresh op =>
      rw [show [Step.perform fresh op].filter Step.isOperation = [.perform fresh op] from rfl,
        onDisk_concat, ih]

/-- A document of a collection is looked up under its own identifier in both stores. -/
lemma perform_get {issued : String → List String} {v : Volatile} {d : Durable} {c id : String}
    {doc : Fields} (h : Mirror issued v d) (hvalid : isCollection c = true) (hdoc : doc ∈ v.docs c)
    (hid : doc.string? idField = some id) :
    ((volatile v).perform "" (.get c id)).1 = .ok (some doc) ∧
      ((durable d).perform "" (.get c id)).1 = .ok (some doc) := by
  have hget : isCollection (Op.get c id).collection = true := hvalid
  have hfound := (find?_hasId_eq_some_iff (h c).nodup).2 ⟨hdoc, hid⟩
  rw [perform_volatile hget, perform_durable hget, Durable.perform_get]
  constructor
  · exact congrArg Except.ok hfound
  · exact ((h c).lookup_eq id).trans (congrArg Except.ok hfound)

end Runs

/-! ### A shopping list -/

namespace Shopping

/-- A list that claims an identifier of its own. -/
def forged : Fields := KeyMap.ofList [("_id", .str "mine"), ("owner", .str "ann")]

/-- A patch that claims another identifier. -/
def patch : Fields := KeyMap.ofList [("_id", .str "yours"), ("done", .bool true)]

/-- What is stored in the end. -/
def bought : Fields := patched (withId forged "a") patch

/-- The list is inserted, the store is opened again, and the list is patched. -/
def steps : List Step :=
  [.perform "a" (.insert "lists" forged), .reopen, .perform "b" (.update "lists" "a" patch)]

lemma nodup_issuedIn (c : String) : (issuedIn c steps).Nodup := by
  have hissued : issuedIn c steps = if "lists" = c then ["a"] else [] := by
    by_cases hc : "lists" = c
    · subst hc
      rfl
    · simp [issuedIn, steps, Step.issuedIn?, Op.collection, hc]
  rw [hissued]
  split
  · exact List.nodup_singleton "a"
  · exact List.nodup_nil

lemma legible_forged : Legible (withId forged "a") := by
  unfold Legible
  cbv

lemma legible_bought : Legible bought := by
  unfold Legible
  cbv

lemma readable : Readable steps := by
  intro front hfront c doc hholds
  have hdocs (docs : List Fields) (hmemory : inMemory front = .volatile (({} : Volatile).setDocs
      "lists" docs)) : doc ∈ docs := by
    have hmem := mem_docs_of_holds (hmemory ▸ hholds)
    rw [docs_setDocs] at hmem
    split at hmem
    · exact hmem
    · exact absurd hmem List.not_mem_nil
  rw [← List.mem_inits] at hfront
  simp only [steps, List.inits, List.map_cons, List.map_nil, List.mem_cons, List.not_mem_nil,
    or_false] at hfront
  rcases hfront with rfl | rfl | rfl | rfl
  · exact absurd (mem_docs_of_holds hholds) List.not_mem_nil
  · rw [List.mem_singleton.1 (hdocs [withId forged "a"] rfl)]
    exact legible_forged
  · rw [List.mem_singleton.1 (hdocs [withId forged "a"] rfl)]
    exact legible_forged
  · rw [List.mem_singleton.1 (hdocs [bought] rfl)]
    exact legible_bought

end Shopping

/--
A store in memory and one on disk start empty and go through the same operations, with fresh identifiers
for new documents, while the store on disk is closed and opened again at any time; this changes
nothing. Every operation gives the same result on both. One that fails changes neither. Whatever
document an operation stores or gives has an identifier that its collection issued, the one that the
operation names if it names one, and is found under it in both stores.
-/
theorem stores_agree {steps : List Step} (hfresh : ∀ c, (issuedIn c steps).Nodup)
    (hreadable : Readable steps) :
    onDisk (steps.filter Step.isOperation) = onDisk steps ∧
      ∀ front fresh op back, steps = front ++ .perform fresh op :: back →
        op.Agree ((inMemory front).perform fresh op).1 ((onDisk front).perform fresh op).1 ∧
        (∀ e, ((inMemory front).perform fresh op).1 = .error e →
          ((inMemory front).perform fresh op).2 = inMemory front ∧
            ((onDisk front).perform fresh op).2 = onDisk front) ∧
        ∀ r, ((inMemory front).perform fresh op).1 = .ok r ∨
            ((onDisk front).perform fresh op).1 = .ok r →
          ∀ doc ∈ op.given r, ∃ id ∈ issuedIn op.collection (front ++ [.perform fresh op]),
            doc.string? idField = some id ∧ (∀ named, op.target? = some named → id = named) ∧
            (((inMemory front).perform fresh op).2.perform "" (.get op.collection id)).1 =
              .ok (some doc) ∧
            (((onDisk front).perform fresh op).2.perform "" (.get op.collection id)).1 =
              .ok (some doc) := by
  refine ⟨onDisk_filter steps, ?_⟩
  rintro front fresh op back rfl
  rw [List.append_cons] at hfresh hreadable
  have hnow : front ++ [.perform fresh op] <+: front ++ [.perform fresh op] ++ back :=
    List.prefix_append _ _
  have hfresh (c : String) : (issuedIn c (front ++ [.perform fresh op])).Nodup := by
    refine (hfresh c).sublist ?_
    exact hnow.sublist.filterMap _
  have hreadable := hreadable.of_isPrefix hnow
  have hbefore (c : String) : (issuedIn c front).Nodup :=
    (hfresh c).sublist ((List.prefix_append _ _).sublist.filterMap _)
  obtain ⟨v, d, hmemory, hdisk, h⟩ :=
    exists_mirror hbefore (hreadable.of_isPrefix (List.prefix_append _ _))
  cases hvalid : isCollection op.collection with
  | true =>
    have halike := alike_of_mirror (hfresh _) hreadable hmemory h hvalid
    rw [hmemory, hdisk, perform_volatile hvalid, perform_durable hvalid]
    refine ⟨halike.agree, fun e he => ?_, fun r hr doc hdoc => ?_⟩
    · obtain ⟨hv, hd⟩ := halike.unchanged e he
      exact ⟨congrArg _ hv, congrArg _ hd⟩
    · obtain ⟨hmem, htarget⟩ := halike.given r hr doc hdoc
      obtain ⟨id, hissued, hid⟩ := (halike.mirror _).issued doc hmem
      refine ⟨id, hissued, hid, fun named hnamed => ?_, perform_get halike.mirror hvalid hmem hid⟩
      exact Option.some.inj (hid.symm.trans (htarget named hnamed))
  | false =>
    rw [perform_of_not_valid hvalid, perform_of_not_valid hvalid]
    exact ⟨rfl, fun _ _ => ⟨rfl, rfl⟩, by rintro r (⟨⟨⟩⟩ | ⟨⟨⟩⟩)⟩

theorem stores_agree_shopping :
    ((inMemory Shopping.steps).perform "" (.get "lists" "a")).1 = .ok (some Shopping.bought) ∧
      ((onDisk Shopping.steps).perform "" (.get "lists" "a")).1 = .ok (some Shopping.bought) := by
  obtain ⟨-, h⟩ := stores_agree Shopping.nodup_issuedIn Shopping.readable
  obtain ⟨-, -, hgiven⟩ := h [.perform "a" (.insert "lists" Shopping.forged), .reopen] "b"
    (.update "lists" "a" Shopping.patch) [] rfl
  obtain ⟨id, -, -, htarget, hmemory, hdisk⟩ :=
    hgiven Shopping.bought (Or.inl rfl) Shopping.bought (List.mem_singleton_self _)
  obtain rfl := htarget "a" rfl
  exact ⟨hmemory, hdisk⟩

end Synchrony.Store

import Mathlib.Data.List.Basic
import Mathlib.Tactic.Common
import Synchrony.Files

/-!
# Writing is all or nothing

What a tree shows by some names (`FileTree.shown`) tells files, directories and missing things apart. A
change of the entries of one directory is seen behind it only (`shown_modify_cases`). So making directories
changes no file (`Grows`), a temporary file that is removed again leaves no trace, and whichever step of
writing fails, either the file has the new data and all others are as they were, or all are
(`FileTree.write_allOrNothing`).
-/

namespace Synchrony.FileTree

variable {t t' t'' : FileTree} {entries : List (String × FileTree)} {here names place : List String}
  {name : String} {data : ByteArray} {fails : Step → Bool}

/-! ### What a tree shows -/

/-- The data of a file, nothing for a directory. -/
def content : FileTree → Option ByteArray
  | file data => some data
  | directory _ => none

/-- What is found by these names, if anything: a file with its data, or a directory. -/
def shown (t : FileTree) (names : List String) : Option (Option ByteArray) :=
  (t.at? names).map content

lemma data?_eq_join (t : FileTree) (names : List String) : t.data? names = (t.shown names).join := by
  rw [data?, shown]
  rcases t.at? names with _ | _ | _ <;> rfl

lemma isDirectory_iff_shown : t.isDirectory names = true ↔ t.shown names = some none := by
  rw [isDirectory, shown]
  rcases t.at? names with _ | _ | _ <;> simp [content]

lemma isDirectory_iff : t.isDirectory names = true ↔ ∃ entries, t.at? names = some (directory entries) := by
  rw [isDirectory]
  rcases t.at? names with _ | _ | _ <;> simp

lemma shown_directory_cons (entries : List (String × FileTree)) (name : String)
    (names : List String) :
    (directory entries).shown (name :: names) = (entries.lookup name).bind (·.shown names) := by
  rw [shown, at?]
  cases entries.lookup name <;> rfl

/-- What is behind a directory is what the directory holds. -/
lemma at?_append (h : t.at? here = some (directory entries)) (names : List String) :
    t.at? (here ++ names) = (directory entries).at? names := by
  induction here generalizing t with
  | nil =>
    cases h
    rfl
  | cons name here ih =>
    cases t with
    | file data => cases h
    | directory es =>
      rw [at?] at h
      obtain ⟨sub, hsub, hat⟩ := Option.bind_eq_some_iff.1 h
      rw [List.cons_append, at?, hsub, Option.bind_some, ih hat]

lemma shown_append (h : t.at? here = some (directory entries)) (names : List String) :
    t.shown (here ++ names) = (directory entries).shown names := by
  rw [shown, at?_append h, shown]

/-! ### Changing the entries of a directory -/

lemma lookup_map_if (f : FileTree → FileTree) (entries : List (String × FileTree)) (other : String) :
    (entries.map fun (n, t) => (n, if n = name then f t else t)).lookup other =
      (entries.lookup other).map fun t => if other = name then f t else t := by
  induction entries with
  | nil => rfl
  | cons e rest ih =>
    obtain ⟨n, t⟩ := e
    rw [List.map_cons, List.lookup_cons, List.lookup_cons]
    by_cases hn : other = n
    · simp [hn]
    · have hb : (other == n) = false := by simpa using hn
      rw [hb, ih]

/-- A change of the entries of a directory is seen behind it only. -/
lemma shown_modify_cases (f : List (String × FileTree) → List (String × FileTree)) (t : FileTree)
    (here names : List String) :
    (t.modify f here).shown names = t.shown names ∨
      ∃ entries name behind, t.at? here = some (directory entries) ∧ names = here ++ name :: behind ∧
        (t.modify f here).shown names = ((f entries).lookup name).bind (·.shown behind) := by
  induction here generalizing t names with
  | nil =>
    cases t with
    | file data => exact .inl rfl
    | directory es =>
      cases names with
      | nil => exact .inl rfl
      | cons n behind => exact .inr ⟨es, n, behind, rfl, rfl, shown_directory_cons _ _ _⟩
  | cons name here ih =>
    cases t with
    | file data => exact .inl rfl
    | directory es =>
      cases names with
      | nil => exact .inl rfl
      | cons n behind =>
        rw [modify, shown_directory_cons, shown_directory_cons, lookup_map_if]
        cases hsub : es.lookup n with
        | none => exact .inl rfl
        | some sub =>
          simp only [Option.map_some, Option.bind_some]
          split
          · rename_i heq
            subst heq
            rcases ih sub behind with hsame | ⟨es', n', behind', hat, rfl, hshown⟩
            · exact .inl hsame
            · exact .inr ⟨es', n', behind', by rw [at?, hsub, Option.bind_some, hat], rfl, hshown⟩
          · exact .inl rfl

lemma modify_modify (f g : List (String × FileTree) → List (String × FileTree)) (t : FileTree)
    (here : List String) : (t.modify f here).modify g here = t.modify (g ∘ f) here := by
  induction here generalizing t with
  | nil => cases t <;> rfl
  | cons name here ih =>
    cases t with
    | file data => rfl
    | directory es =>
      simp only [modify, List.map_map]
      congr 2
      funext e
      obtain ⟨n, sub⟩ := e
      simp only [Function.comp_apply]
      split
      · rw [ih]
      · rfl

/-- Entries that are looked up alike make trees that show the same. -/
lemma shown_modify_of_lookup {f : List (String × FileTree) → List (String × FileTree)}
    (hat : t.at? here = some (directory entries))
    (hf : ∀ name, (f entries).lookup name = entries.lookup name) (names : List String) :
    (t.modify f here).shown names = t.shown names := by
  rcases shown_modify_cases f t here names with hsame | ⟨es, n, behind, hat', rfl, hshown⟩
  · exact hsame
  · rw [hat, Option.some.injEq, directory.injEq] at hat'
    subst hat'
    rw [hshown, hf, shown_append hat, shown_directory_cons]

/-- The directory that is changed stays where it is. -/
lemma at?_modify (f : List (String × FileTree) → List (String × FileTree))
    (hat : t.at? here = some (directory entries)) :
    (t.modify f here).at? here = some (directory (f entries)) := by
  induction here generalizing t with
  | nil =>
    cases hat
    rfl
  | cons name here ih =>
    cases t with
    | file data => cases hat
    | directory es =>
      rw [at?] at hat
      obtain ⟨sub, hsub, hat⟩ := Option.bind_eq_some_iff.1 hat
      rw [modify, at?, lookup_map_if, hsub, Option.map_some, Option.bind_some, if_pos rfl]
      exact ih hat

/-! ### Directories that are made -/

/-- The files are the same, and no directory is gone. -/
structure Grows (t t' : FileTree) : Prop where
  files : ∀ names, t'.data? names = t.data? names
  directories : ∀ names, t.isDirectory names = true → t'.isDirectory names = true

lemma Grows.refl (t : FileTree) : Grows t t := ⟨fun _ => rfl, fun _ h => h⟩

lemma Grows.trans (h : Grows t t') (h' : Grows t' t'') : Grows t t'' :=
  ⟨fun names => (h'.files names).trans (h.files names),
    fun names hdir => h'.directories names (h.directories names hdir)⟩

lemma Grows.of_shown (h : ∀ names, t'.shown names = t.shown names) : Grows t t' where
  files names := by rw [data?_eq_join, data?_eq_join, h]
  directories names hdir := by rwa [isDirectory_iff_shown, h, ← isDirectory_iff_shown]

/-- A new directory is empty, so the files are the same. -/
lemma grows_makeDirectory (hnew : t.at? (here ++ [name]) = none) :
    Grows t (t.modify (put name empty) here) := by
  have hcases (names : List String) : (t.modify (put name empty) here).shown names = t.shown names ∨
      t.shown names = none ∧ ((t.modify (put name empty) here).shown names).join = none := by
    rcases shown_modify_cases (put name empty) t here names with hsame | ⟨es, n, behind, hat, rfl, hshown⟩
    · exact .inl hsame
    · rw [hshown, shown_append hat, shown_directory_cons]
      by_cases hn : n = name
      · subst hn
        have hnone : es.lookup n = none := by
          have hlast := shown_append hat [n]
          rw [shown, hnew, shown_directory_cons] at hlast
          cases hlook : es.lookup n with
          | none => rfl
          | some sub =>
            rw [hlook] at hlast
            cases hlast
        rw [hnone, lookup_put_self]
        refine .inr ⟨rfl, ?_⟩
        cases behind <;> rfl
      · rw [lookup_put_of_ne hn]
        exact .inl rfl
  constructor
  · intro names
    rw [data?_eq_join, data?_eq_join]
    rcases hcases names with hsame | ⟨hnone, hjoin⟩
    · rw [hsame]
    · rw [hnone, hjoin]
      rfl
  · intro names hdir
    rw [isDirectory_iff_shown] at hdir ⊢
    rcases hcases names with hsame | ⟨hnone, -⟩
    · rw [hsame, hdir]
    · rw [hdir] at hnone
      cases hnone

/-- Only a directory can hold a directory, and a file at the root stays one. -/
lemma Grows.root (h : Grows t t') (hdir : t'.isDirectory here = true) : t.isDirectory [] = true := by
  cases t with
  | directory entries => rfl
  | file data =>
    have hfile := h.files []
    cases t' with
    | directory entries => cases hfile
    | file data' => cases here <;> cases hdir

/-- Names lead to the same place if no directory is gone. -/
lemma resolve?_of_directories (h : ∀ names, t.isDirectory names = true → t'.isDirectory names = true)
    (hres : t.resolve? here names = some place) : t'.resolve? here names = some place := by
  induction names generalizing here with
  | nil => exact hres
  | cons name names ih =>
    rw [resolve?] at hres ⊢
    split at hres
    · rename_i hdir
      rw [if_pos (h here hdir)]
      exact ih hres
    · cases hres

/-- The name of a file leads down. -/
lemma follow_of_isFileName (h : isFileName name = true) (here : List String) :
    FilePath.follow here name = here ++ [name] := by
  refine if_neg fun hdots => ?_
  simp [hdots, isFileName] at h

lemma resolve?_concat (t : FileTree) (here names : List String) (name : String) :
    t.resolve? here (names ++ [name]) = (t.resolve? here names).bind fun place =>
      if t.isDirectory place then some (FilePath.follow place name) else none := by
  induction names generalizing here with
  | nil => rfl
  | cons n names ih =>
    rw [List.cons_append, resolve?, resolve?]
    split
    · exact ih _
    · rfl

lemma isDirectory_modify_put_empty (hdir : t.isDirectory here = true) :
    (t.modify (put name empty) here).isDirectory (here ++ [name]) = true := by
  obtain ⟨entries, hat⟩ := isDirectory_iff.1 hdir
  rw [isDirectory_iff_shown, shown_append (at?_modify _ hat), shown_directory_cons, lookup_put_self]
  rfl

/-- Making directories leaves the files, and the names lead to a directory if it comes to an end. -/
lemma makeDirectories_spec (fails : Step → Bool) (t : FileTree) (here names : List String) :
    Grows t (t.makeDirectories fails here names).2 ∧
      ∀ place, (t.makeDirectories fails here names).1 = some place → t.isDirectory here = true →
        (t.makeDirectories fails here names).2.resolve? here names = some place := by
  induction names generalizing t here with
  | nil => exact ⟨.refl t, fun place h _ => h⟩
  | cons name names ih =>
    rw [makeDirectories]
    split
    · rename_i entries hat
      obtain ⟨hgrows, hplace⟩ := ih t (FilePath.follow here name)
      refine ⟨hgrows, fun place h hdir => ?_⟩
      rw [resolve?, if_pos (hgrows.directories here hdir)]
      exact hplace place h (isDirectory_iff.2 ⟨entries, hat⟩)
    · exact ⟨.refl t, nofun⟩
    · rename_i hnone
      split
      · exact ⟨.refl t, nofun⟩
      · rename_i hgoes
        have hfollow : FilePath.follow here name = here ++ [name] :=
          follow_of_isFileName (by simp_all) here
        rw [hfollow] at hnone ⊢
        have hnew := grows_makeDirectory hnone
        obtain ⟨hgrows, hplace⟩ := ih (t.modify (put name empty) here) (here ++ [name])
        refine ⟨hnew.trans hgrows, fun place h hdir => ?_⟩
        rw [resolve?, if_pos (hgrows.directories here (hnew.directories here hdir)), hfollow]
        exact hplace place h (isDirectory_modify_put_empty hdir)

/-! ### The temporary file -/

lemma length_le_of_mem {names : List String} (h : name ∈ names) :
    name.toList.length ≤ (names.flatMap String.toList).length := by
  induction names with
  | nil => cases h
  | cons n names ih =>
    rw [List.flatMap_cons, List.length_append]
    rcases List.mem_cons.1 h with rfl | h
    · omega
    · have := ih h
      omega

lemma freshName_notMem (names : List String) : freshName names ∉ names := by
  intro h
  have hlength := length_le_of_mem h
  simp [freshName] at hlength
  omega

lemma lookup_eq_none_of_notMem (h : name ∉ entries.map (·.1)) : entries.lookup name = none := by
  induction entries with
  | nil => rfl
  | cons e entries ih =>
    rw [List.map_cons, List.mem_cons, not_or] at h
    have hb : (name == e.1) = false := by simpa using h.1
    rw [List.lookup_cons, hb]
    exact ih h.2

/-- A temporary file that is removed again leaves no trace, however often it was filled. -/
lemma lookup_remove_put (h : entries.lookup name = none) (t : FileTree) (other : String) :
    (remove name (put name t entries)).lookup other = entries.lookup other := by
  rw [lookup_remove]
  split
  · rename_i heq
    rw [heq, h]
  · rename_i hne
    exact lookup_put_of_ne hne t entries

/-! ### Writing -/

/-- A file that takes the place of a file, or of nothing, is the only thing that changes. -/
lemma shown_modify_file {f : List (String × FileTree) → List (String × FileTree)}
    (hat : t.at? here = some (directory entries)) (hfree : t.isDirectory (here ++ [name]) = false)
    (hself : (f entries).lookup name = some (file data))
    (hother : ∀ other, other ≠ name → (f entries).lookup other = entries.lookup other)
    (hne : names ≠ here ++ [name]) : (t.modify f here).shown names = t.shown names := by
  rcases shown_modify_cases f t here names with hsame | ⟨es, n, behind, hat', rfl, hshown⟩
  · exact hsame
  · rw [hat, Option.some.injEq, directory.injEq] at hat'
    subst hat'
    rw [hshown, shown_append hat, shown_directory_cons]
    by_cases hn : n = name
    · subst hn
      rw [← Bool.not_eq_true, isDirectory_iff_shown, shown_append hat, shown_directory_cons] at hfree
      cases behind with
      | nil => exact absurd rfl hne
      | cons m behind =>
        rw [hself]
        rcases hlook : entries.lookup n with _ | _ | sub
        · rfl
        · rfl
        · rw [hlook] at hfree
          exact absurd rfl hfree
    · rw [hother n hn]

/-- A file is put in a directory, in the place of a file or of nothing, and nothing else changes. -/
structure Replaced (t : FileTree) (here : List String) (name : String) (data : ByteArray)
    (t' : FileTree) : Prop where
  directory : t.isDirectory here = true
  free : t.isDirectory (here ++ [name]) = false
  file : t'.at? (here ++ [name]) = some (file data)
  others : ∀ names, names ≠ here ++ [name] → t'.shown names = t.shown names

lemma replaced_modify {f : List (String × FileTree) → List (String × FileTree)}
    (hat : t.at? here = some (directory entries)) (hfree : t.isDirectory (here ++ [name]) = false)
    (hself : (f entries).lookup name = some (file data))
    (hother : ∀ other, other ≠ name → (f entries).lookup other = entries.lookup other) :
    Replaced t here name data (t.modify f here) where
  directory := isDirectory_iff.2 ⟨entries, hat⟩
  free := hfree
  file := by
    rw [at?_append (at?_modify f hat), at?, hself]
    rfl
  others _ hne := shown_modify_file hat hfree hself hother hne

lemma Replaced.directories (h : Replaced t here name data t') (hdir : t.isDirectory names = true) :
    t'.isDirectory names = true := by
  have hne : names ≠ here ++ [name] := by
    rintro rfl
    rw [h.free] at hdir
    cases hdir
  rwa [isDirectory_iff_shown, h.others names hne, ← isDirectory_iff_shown]

/-- If replacing a file fails, nothing is seen of it; if not, the name is one of a file. -/
lemma replaceFile_cases (fails : Step → Bool) (t : FileTree) (here : List String) (name : String)
    (slash : Bool) (data : ByteArray) :
    (∃ t', t.replaceFile fails here name slash data = (false, t') ∧
      ∀ names, t'.shown names = t.shown names) ∨
    ∃ t', t.replaceFile fails here name slash data = (true, t') ∧
      slash = false ∧ isFileName name = true ∧ Replaced t here name data t' := by
  rw [replaceFile]
  split
  · rename_i entries hat
    have hfresh := freshName_notMem (name :: entries.map (·.1))
    generalize freshName (name :: entries.map (·.1)) = temporary at hfresh ⊢
    rw [List.mem_cons, not_or] at hfresh
    obtain ⟨hname, hfresh⟩ := hfresh
    have hnone := lookup_eq_none_of_notMem hfresh
    -- the directory as it is found once the temporary file is gone
    have hfilled (other : String) : (remove temporary (put temporary (file data)
        (put temporary (file .empty) entries))).lookup other = entries.lookup other := by
      rw [lookup_remove]
      split
      · rename_i heq
        rw [heq, hnone]
      · rename_i hne
        rw [lookup_put_of_ne hne, lookup_put_of_ne hne]
    simp only [modify_modify]
    split
    · exact .inl ⟨t, rfl, fun _ => rfl⟩
    · split
      · exact .inl ⟨_, rfl, shown_modify_of_lookup hat (lookup_remove_put hnone _)⟩
      · split
        -- a directory of this name is in the way
        · exact .inl ⟨_, rfl, shown_modify_of_lookup hat hfilled⟩
        · rename_i hfree
          split
          · exact .inl ⟨_, rfl, shown_modify_of_lookup hat hfilled⟩
          · rename_i hgoes
            refine .inr ⟨_, rfl, by simp_all, by simp_all,
              replaced_modify hat ?_ (by simp) fun other hne => ?_⟩
            · rw [← Bool.not_eq_true, isDirectory_iff_shown, shown_append hat, shown_directory_cons]
              rcases hlook : entries.lookup name with _ | _ | sub
              · nofun
              · nofun
              · exact absurd hlook (hfree sub)
            · simp only [Function.comp_apply]
              rw [lookup_put_of_ne hne, hfilled]
  · exact .inl ⟨t, rfl, fun _ => rfl⟩

/--
What a write comes to: if it was written, the file at the path has the data; if not, all files are as they
were; no file changes but the one that the path leads to, and no directory is gone.
-/
structure AllOrNothing (t : FileTree) (path : FilePath) (data : ByteArray) (done : Bool)
    (t' : FileTree) : Prop where
  written : done = true → t'.read? path = some data
  failed : done = false → ∀ names, t'.data? names = t.data? names
  others : ∀ names, t'.resolve? [] path.names ≠ some names → t'.data? names = t.data? names
  directories : ∀ names, t.isDirectory names = true → t'.isDirectory names = true

/-- A write that failed may have made directories. -/
lemma Grows.allOrNothing {path : FilePath} (h : Grows t t') : AllOrNothing t path data false t' where
  written := nofun
  failed _ := h.files
  others names _ := h.files names
  directories := h.directories

/-- A write that came to its end may have made directories, too. -/
lemma Replaced.allOrNothing {path : FilePath} {parent : List String}
    (h : Replaced t' here name data t'') (hgrows : Grows t t')
    (hplace : t'.resolve? [] parent = some here) (hnames : parent ++ [name] = path.names)
    (hname : isFileName name = true) (hslash : path.slash = false) :
    AllOrNothing t path data true t'' := by
  have hgoal : t''.resolve? [] path.names = some (here ++ [name]) := by
    rw [← hnames, resolve?_concat, resolve?_of_directories (fun _ => h.directories) hplace,
      Option.bind_some, if_pos (h.directories h.directory), follow_of_isFileName hname]
  constructor
  · intro _
    rw [read?, find?, hgoal, Option.bind_some, h.file, hslash]
    rfl
  · exact nofun
  · intro names hne
    rw [data?_eq_join, h.others names fun heq => hne (by rw [hgoal, heq]), ← data?_eq_join,
      hgrows.files]
  · intro names hdir
    exact h.directories (hgrows.directories names hdir)

lemma allOrNothing_write (fails : Step → Bool) (t : FileTree) (path : FilePath) (data : ByteArray) :
    AllOrNothing t path data (t.write fails path data).1 (t.write fails path data).2 := by
  rw [write]
  split
  · exact (Grows.refl t).allOrNothing
  · rename_i name hlast
    dsimp only
    split
    · exact (Grows.refl t).allOrNothing
    · obtain ⟨hgrows, hplace⟩ := makeDirectories_spec fails t [] path.names.dropLast
      have hnames : path.names.dropLast ++ [name] = path.names :=
        List.dropLast_append_getLast? name hlast
      generalize path.names.dropLast = parent at hgrows hplace hnames ⊢
      rcases hmade : t.makeDirectories fails [] parent with ⟨_ | here, t₁⟩
      · rw [hmade] at hgrows
        exact hgrows.allOrNothing
      · rw [hmade] at hgrows hplace
        dsimp only at hgrows hplace ⊢
        rcases replaceFile_cases fails t₁ here name path.slash data with
          ⟨t₂, heq, hshown⟩ | ⟨t₂, heq, hslash, hname, hreplaced⟩
        · rw [heq]
          exact (hgrows.trans (.of_shown hshown)).allOrNothing
        · rw [heq]
          have hparent := hplace here rfl (hgrows.root hreplaced.directory)
          exact hreplaced.allOrNothing hgrows hparent hnames hname hslash

/--
Whichever steps fail, writing is all or nothing; and a file that is written only if it is missing is left
alone, with all the rest, if there is anything at the path.
-/
theorem write_allOrNothing (fails : Step → Bool) (t : FileTree) (path : FilePath) (data : ByteArray) :
    AllOrNothing t path data (t.write fails path data).1 (t.write fails path data).2 ∧
      (t.contains path = true → t.writeIfMissing fails path data = (none, t)) ∧
      (t.contains path = false → ∃ done t', t.writeIfMissing fails path data = (some done, t') ∧
        AllOrNothing t path data done t') := by
  refine ⟨allOrNothing_write fails t path data, fun h => ?_, fun h => ?_⟩
  · rw [writeIfMissing, if_pos h]
  · rw [writeIfMissing, if_neg (by simp [h])]
    exact ⟨_, _, rfl, allOrNothing_write fails t path data⟩

/-! ### Writing where nothing is in the way -/

lemma isDirectory_makeDirectory (h : (t.modify (put name empty) here).isDirectory place = true) :
    t.isDirectory place = true ∨ place = here ++ [name] := by
  rw [isDirectory_iff_shown] at h ⊢
  rcases shown_modify_cases (put name empty) t here place with hsame | ⟨es, n, behind, hat, rfl, hshown⟩
  · exact .inl (hsame ▸ h)
  · rw [hshown] at h
    by_cases hn : n = name
    · subst hn
      rw [lookup_put_self] at h
      cases behind with
      | nil => exact .inr rfl
      | cons m behind => cases h
    · rw [lookup_put_of_ne hn] at h
      rw [shown_append hat, shown_directory_cons]
      exact .inl h

/-- Where no file is in the way, directories are made, and no others than those on the way. -/
lemma makeDirectories_of_free (hnames : ∀ name ∈ names, isFileName name = true)
    (hfree : ∀ front, front <+: names → t.data? (here ++ front) = none)
    (hdir : t.isDirectory here = true) :
    ∃ t', t.makeDirectories (fun _ => false) here names = (some (here ++ names), t') ∧
      t'.isDirectory (here ++ names) = true ∧
      ∀ place, t'.isDirectory place = true → t.isDirectory place = true ∨ place <+: here ++ names := by
  induction names generalizing t here with
  | nil =>
    rw [makeDirectories, List.append_nil]
    exact ⟨t, rfl, hdir, fun place h => .inl h⟩
  | cons name names ih =>
    rw [List.forall_mem_cons] at hnames
    have hnext (front) (h : front <+: names) : t.data? (here ++ [name] ++ front) = none := by
      rw [List.append_assoc]
      exact hfree _ (List.prefix_cons_inj name |>.2 h)
    rw [makeDirectories, follow_of_isFileName hnames.1, List.append_cons here name names]
    split
    · rename_i entries hat
      exact ih hnames.2 hnext (isDirectory_iff.2 ⟨entries, hat⟩)
    · rename_i d hat
      have hnone := hnext [] List.nil_prefix
      rw [List.append_nil, data?, hat] at hnone
      cases hnone
    · rename_i hnone
      rw [if_neg (by simp [hnames.1])]
      obtain ⟨t', heq, hplace, hdirs⟩ := ih (t := t.modify (put name empty) here) hnames.2
        (fun front h => by rw [(grows_makeDirectory hnone).files, hnext front h])
        (isDirectory_modify_put_empty hdir)
      refine ⟨t', heq, hplace, fun place h => ?_⟩
      rcases hdirs place h with hdir | hprefix
      · refine (isDirectory_makeDirectory hdir).imp_right ?_
        rintro rfl
        exact List.prefix_append _ _
      · exact .inr hprefix

/--
If no step fails, no file is where a directory must be, and no directory where the file must be, then the
file is written.
-/
theorem write_of_free (hnames : ∀ n ∈ names ++ [name], isFileName n = true)
    (hfree : ∀ front, front <+: names → t.data? front = none)
    (hdir : t.isDirectory (names ++ [name]) = false) (data : ByteArray) :
    (t.write (fun _ => false) ⟨names ++ [name], false⟩ data).1 = true := by
  have hroot : t.isDirectory [] = true := by
    cases t with
    | file d => cases hfree [] List.nil_prefix
    | directory entries => rfl
  have hparents (n) (h : n ∈ names) : isFileName n = true := hnames n (List.mem_append_left _ h)
  have hname : isFileName name = true := hnames name (by simp)
  obtain ⟨t', heq, hplace, hdirs⟩ := @makeDirectories_of_free t [] names hparents hfree hroot
  rw [List.nil_append] at heq hplace hdirs
  obtain ⟨entries, hat⟩ := isDirectory_iff.1 hplace
  have hnul : names.any (·.toList.contains '\x00') = false := by
    rw [List.any_eq_false]
    intro n h
    have := hparents n h
    simp_all [isFileName]
  have hlook (sub) : entries.lookup name ≠ some (directory sub) := by
    intro h
    have hthere : t'.isDirectory (names ++ [name]) = true := by
      rw [isDirectory_iff, at?_append hat, at?, h]
      exact ⟨sub, rfl⟩
    rcases hdirs _ hthere with h | h
    · rw [h] at hdir
      cases hdir
    · have hlength := h.length_le
      rw [List.length_append, List.length_singleton] at hlength
      omega
  rw [write]
  simp only [List.getLast?_concat, List.dropLast_concat, hnul, heq, replaceFile, hat]
  rcases hentry : entries.lookup name with _ | _ | sub
  · simp [hname]
  · simp [hname]
  · exact absurd hentry (hlook sub)

end Synchrony.FileTree

/-!
# Finite maps in key order

Fields of a record, bindings, shapes and collections are all finite maps from names to something.
A `KeyMap` keeps its entries in strictly increasing order of their names (by code points), so two
maps with the same look-ups have the same entries, and every traversal is in key order.
-/

namespace Synchrony

variable {α β : Type}

/-- A finite map from names to values of `α`, its entries in increasing order of their names. -/
structure KeyMap (α : Type) where
  entries : List (String × α)
  ordered : entries.Pairwise (fun a b => a.1 < b.1)

namespace KeyMap

/-! ### Entries -/

/-- The value of the first entry called `key`. -/
def find? (key : String) : List (String × α) → Option α
  | [] => none
  | (k, a) :: rest => if k = key then some a else find? key rest

/-- Puts an entry in front of the first one that is not smaller, replacing one of its own name. -/
def place (key : String) (a : α) : List (String × α) → List (String × α)
  | [] => [(key, a)]
  | (k, b) :: rest =>
    if key < k then (key, a) :: (k, b) :: rest
    else if key = k then (key, a) :: rest
    else (k, b) :: place key a rest

theorem mem_place {key : String} {a : α} {l : List (String × α)} {e : String × α}
    (h : e ∈ place key a l) : e = (key, a) ∨ e ∈ l := by
  induction l with
  | nil => simpa [place] using h
  | cons head rest ih =>
    obtain ⟨k, b⟩ := head
    unfold place at h
    split at h
    · simpa using h
    · split at h
      · rcases List.mem_cons.1 h with h | h
        · exact .inl h
        · exact .inr (List.mem_cons_of_mem _ h)
      · rcases List.mem_cons.1 h with h | h
        · exact .inr (by simp [h])
        · exact (ih h).imp_right (List.mem_cons_of_mem _)

theorem pairwise_place {key : String} {a : α} {l : List (String × α)}
    (h : l.Pairwise (fun a b => a.1 < b.1)) :
    (place key a l).Pairwise (fun a b => a.1 < b.1) := by
  induction l with
  | nil => simp [place]
  | cons head rest ih =>
    obtain ⟨k, b⟩ := head
    obtain ⟨hk, hr⟩ := List.pairwise_cons.1 h
    unfold place
    split
    · rename_i hlt
      refine List.pairwise_cons.2 ⟨fun e he => ?_, h⟩
      rcases List.mem_cons.1 he with he | he
      · simpa [he] using hlt
      · exact String.lt_trans hlt (hk e he)
    · split
      · rename_i heq
        exact List.pairwise_cons.2 ⟨fun e he => heq ▸ hk e he, hr⟩
      · rename_i hlt hne
        refine List.pairwise_cons.2 ⟨fun e he => ?_, ih hr⟩
        rcases mem_place he with he | he
        · rcases Std.lt_trichotomy k key with hc | hc | hc
          · simpa [he] using hc
          · exact absurd hc.symm hne
          · exact absurd hc hlt
        · exact hk e he

/-! ### Maps -/

/-- The map without entries. -/
def empty : KeyMap α := ⟨[], .nil⟩

instance : Inhabited (KeyMap α) := ⟨empty⟩

instance [DecidableEq α] : DecidableEq (KeyMap α) := fun a b =>
  if h : a.entries = b.entries then isTrue (by cases a; cases b; simp_all)
  else isFalse (fun heq => h (congrArg entries heq))

/-- The value stored under a name. -/
def get? (m : KeyMap α) (key : String) : Option α := find? key m.entries

/-- Whether something is stored under a name. -/
def contains (m : KeyMap α) (key : String) : Bool := (m.get? key).isSome

/-- Stores a value under a name, in place of an earlier one. -/
def insert (m : KeyMap α) (key : String) (a : α) : KeyMap α :=
  ⟨place key a m.entries, pairwise_place m.ordered⟩

/-- Forgets a name. -/
def erase (m : KeyMap α) (key : String) : KeyMap α :=
  ⟨m.entries.filter (fun e => e.1 != key), m.ordered.filter _⟩

/-- The names, in increasing order. -/
def keys (m : KeyMap α) : List String := m.entries.map (·.1)

/-- The values, in the order of their names. -/
def values (m : KeyMap α) : List α := m.entries.map (·.2)

/-- How many names are stored. -/
def size (m : KeyMap α) : Nat := m.entries.length

/-- Whether no name is stored. -/
def isEmpty (m : KeyMap α) : Bool := m.entries.isEmpty

/-- A map with one entry. -/
def singleton (key : String) (a : α) : KeyMap α := empty.insert key a

/-- The entries of a list, a later one replacing an earlier one of the same name. -/
def ofList (l : List (String × α)) : KeyMap α :=
  l.foldl (fun m e => m.insert e.1 e.2) empty

/-- Applies a function to every value. -/
def map (f : α → β) (m : KeyMap α) : KeyMap β :=
  ⟨m.entries.map (fun e => (e.1, f e.2)), List.pairwise_map.2 m.ordered⟩

/-- Applies a function to every entry and keeps the names for which it gives a value. -/
def filterMap (f : String → α → Option β) (m : KeyMap α) : KeyMap β where
  entries := m.entries.filterMap fun e => (f e.1 e.2).map fun b => (e.1, b)
  ordered := by
    refine List.pairwise_filterMap.2 (m.ordered.imp fun {e e'} hlt x hx y hy => ?_)
    obtain ⟨b, -, rfl⟩ := Option.map_eq_some_iff.1 hx
    obtain ⟨b', -, rfl⟩ := Option.map_eq_some_iff.1 hy
    exact hlt

/-- The entries whose names satisfy a test. -/
def filterKeys (p : String → Bool) (m : KeyMap α) : KeyMap α :=
  ⟨m.entries.filter (fun e => p e.1), m.ordered.filter _⟩

/-- Every entry of `m` that is not called `kept` is stored into `into`. -/
def mergeExcept (kept : String) (into m : KeyMap α) : KeyMap α :=
  m.entries.foldl (fun acc e => if e.1 = kept then acc else acc.insert e.1 e.2) into

end KeyMap

end Synchrony

/-
  ShapeEstimator.NameMap
  ────────────────────────────────
  **VALUES BY NAME, IN NAME ORDER.**

  A map keeps its names in strictly increasing order of code points, so a name
  stands at most once and equal maps are equal lists:

      (m.insert k v).get? n  =  if n = k then some v else m.get? n
-/

namespace ShapeEstimator

/-! ## §1. Sorted entries. -/

/-- Values by name. -/
structure NameMap (α : Type) where
  /-- The names and their values, names increasing. -/
  entries : List (String × α)
  /-- The names increase strictly. -/
  sorted : entries.Pairwise (fun a b => a.1 < b.1) := by exact List.Pairwise.nil
  deriving DecidableEq, Repr

namespace NameMap

variable {α β : Type}

/-- Puts a value under a name into a sorted list, in place of one that is there. -/
def insertEntry (name : String) (value : α) : List (String × α) → List (String × α)
  | [] => [(name, value)]
  | (n, v) :: rest =>
    if name < n then (name, value) :: (n, v) :: rest
    else if name = n then (name, value) :: rest
    else (n, v) :: insertEntry name value rest

theorem mem_insertEntry {name : String} {value : α} {es : List (String × α)} {e : String × α}
    (h : e ∈ insertEntry name value es) : e = (name, value) ∨ e ∈ es := by
  induction es with
  | nil => exact Or.inl (List.mem_singleton.1 h)
  | cons head rest ih =>
    obtain ⟨n, v⟩ := head
    unfold insertEntry at h
    split at h
    · exact List.mem_cons.1 h
    · split at h
      · rcases List.mem_cons.1 h with h | h
        · exact Or.inl h
        · exact Or.inr (List.mem_cons_of_mem _ h)
      · rcases List.mem_cons.1 h with h | h
        · exact Or.inr (h ▸ List.mem_cons_self)
        · rcases ih h with h | h
          · exact Or.inl h
          · exact Or.inr (List.mem_cons_of_mem _ h)

theorem sorted_insertEntry (name : String) (value : α) {es : List (String × α)}
    (h : es.Pairwise fun a b => a.1 < b.1) :
    (insertEntry name value es).Pairwise fun a b => a.1 < b.1 := by
  induction es with
  | nil => exact List.pairwise_singleton _ _
  | cons head rest ih =>
    obtain ⟨n, v⟩ := head
    obtain ⟨hn, hrest⟩ := List.pairwise_cons.1 h
    unfold insertEntry
    split
    · rename_i hlt
      refine List.pairwise_cons.2 ⟨?_, h⟩
      intro e he
      rcases List.mem_cons.1 he with he | he
      · rw [he]; exact hlt
      · exact String.lt_trans hlt (hn e he)
    · rename_i hge
      split
      · rename_i heq
        refine List.pairwise_cons.2 ⟨?_, hrest⟩
        intro e he
        rw [heq]; exact hn e he
      · rename_i hne
        refine List.pairwise_cons.2 ⟨?_, ih hrest⟩
        intro e he
        rcases mem_insertEntry he with he | he
        · rw [he]; exact Std.lt_of_le_of_ne hge (Ne.symm hne)
        · exact hn e he

/-! ## §2. Operations. -/

/-- The map without names. -/
def empty : NameMap α := { entries := [] }

instance : Inhabited (NameMap α) := ⟨empty⟩

/-- Puts a value under a name, in place of one that is there. -/
def insert (m : NameMap α) (name : String) (value : α) : NameMap α :=
  { entries := insertEntry name value m.entries, sorted := sorted_insertEntry name value m.sorted }

/-- The map of a list of names and values; of several values for a name the last one counts. -/
def ofList (es : List (String × α)) : NameMap α := es.foldl (fun m e => m.insert e.1 e.2) empty

/-- The value under a name. -/
def get? (m : NameMap α) (name : String) : Option α := m.entries.lookup name

/-- Whether there is a value under a name. -/
def contains (m : NameMap α) (name : String) : Bool := (m.get? name).isSome

/-- The names in increasing order. -/
def names (m : NameMap α) : List String := m.entries.map (·.1)

/-- The values with a function applied to each. -/
def map (f : α → β) (m : NameMap α) : NameMap β where
  entries := m.entries.map fun e => (e.1, f e.2)
  sorted := List.Pairwise.map _ (fun _ _ h => h) m.sorted

/-! ## §3. Looking up. -/

@[simp] theorem get?_empty (n : String) : (empty : NameMap α).get? n = none := rfl

theorem lookup_cons_ite (n k : String) (v : α) (es : List (String × α)) :
    ((k, v) :: es).lookup n = if n = k then some v else es.lookup n := by
  by_cases h : n = k
  · rw [if_pos h, h, List.lookup_cons_self]
  · rw [if_neg h, List.lookup_cons, beq_false_of_ne h]

theorem lookup_insertEntry (name n : String) (value : α) (es : List (String × α)) :
    (insertEntry name value es).lookup n = if n = name then some value else es.lookup n := by
  induction es with
  | nil => rw [insertEntry, lookup_cons_ite]
  | cons head rest ih =>
    obtain ⟨k, v⟩ := head
    unfold insertEntry
    split
    · rw [lookup_cons_ite]
    · split
      · rename_i h
        rw [lookup_cons_ite, lookup_cons_ite, h]
        split <;> rfl
      · rename_i h
        rw [lookup_cons_ite, lookup_cons_ite, ih]
        by_cases hn : n = name
        · rw [if_pos hn, if_pos hn, if_neg (fun hk => h (hn ▸ hk))]
        · rw [if_neg hn, if_neg hn]

@[simp] theorem get?_insert (m : NameMap α) (name n : String) (value : α) :
    (m.insert name value).get? n = if n = name then some value else m.get? n :=
  lookup_insertEntry name n value m.entries

/-- An entry is in the map exactly when its value is found under its name. -/
theorem mem_entries_iff {m : NameMap α} {n : String} {v : α} :
    (n, v) ∈ m.entries ↔ m.get? n = some v := by
  obtain ⟨es, hsorted⟩ := m
  show (n, v) ∈ es ↔ es.lookup n = some v
  induction es with
  | nil => exact iff_of_false List.not_mem_nil nofun
  | cons head rest ih =>
    obtain ⟨k, w⟩ := head
    obtain ⟨hk, hrest⟩ := List.pairwise_cons.1 hsorted
    rw [lookup_cons_ite, List.mem_cons]
    by_cases hn : n = k
    · -- the name stands at the head, and nowhere behind it
      have hnot : (n, v) ∉ rest := fun hmem =>
        String.lt_irrefl k (by have hlt := hk (n, v) hmem; rwa [hn] at hlt)
      rw [if_pos hn, or_iff_left hnot, Option.some.injEq, Prod.mk.injEq, and_iff_right hn]
      exact eq_comm
    · have hne : (n, v) ≠ (k, w) := fun h => hn (Prod.mk.inj h).1
      rw [if_neg hn, or_iff_right hne]
      exact ih hrest

@[simp] theorem contains_insert (m : NameMap α) (name n : String) (value : α) :
    (m.insert name value).contains n = (decide (n = name) || m.contains n) := by
  unfold contains
  rw [get?_insert]
  by_cases h : n = name
  · rw [if_pos h, decide_eq_true h]
    rfl
  · rw [if_neg h, decide_eq_false h]
    rfl

theorem contains_iff {m : NameMap α} {n : String} :
    m.contains n = true ↔ ∃ v, m.get? n = some v :=
  Option.isSome_iff_exists

theorem isEmpty_iff {m : NameMap α} :
    m.entries.isEmpty = true ↔ ∀ n, ¬ m.contains n = true := by
  rw [List.isEmpty_iff]
  constructor
  · intro h n hn
    obtain ⟨v, hv⟩ := contains_iff.1 hn
    rw [← mem_entries_iff, h] at hv
    exact List.not_mem_nil hv
  · intro h
    apply List.eq_nil_iff_forall_not_mem.2
    rintro ⟨n, v⟩ he
    exact h n (contains_iff.2 ⟨v, mem_entries_iff.1 he⟩)

theorem eq_empty_of_isEmpty {m : NameMap α} (h : m.entries.isEmpty = true) : m = .empty := by
  obtain ⟨es, hsorted⟩ := m
  cases List.isEmpty_iff.1 h
  rfl

/-- No two entries of a map have one name. -/
theorem names_distinct (m : NameMap α) : m.entries.Pairwise fun a b => a.1 ≠ b.1 := by
  apply m.sorted.imp
  intro a b hlt heq
  rw [heq] at hlt
  exact String.lt_irrefl b.1 hlt

/-- Maps with the same values under all names are equal. -/
theorem ext_get? {m m' : NameMap α} (h : ∀ n, m.get? n = m'.get? n) : m = m' := by
  have hmem : ∀ e, e ∈ m.entries ↔ e ∈ m'.entries := by
    rintro ⟨n, v⟩
    rw [mem_entries_iff, mem_entries_iff, h n]
  -- two strictly increasing lists with the same members are the same list
  have hperm : m.entries.Perm m'.entries := by
    apply (List.perm_ext_iff_of_nodup _ _).2 hmem
    · exact m.names_distinct.imp fun hne heq => hne (congrArg Prod.fst heq)
    · exact m'.names_distinct.imp fun hne heq => hne (congrArg Prod.fst heq)
  have hentries : m.entries = m'.entries := by
    apply hperm.eq_of_pairwise _ m.sorted m'.sorted
    intro a b _ _ hab hba
    exact absurd (String.lt_trans hab hba) (String.lt_irrefl a.1)
  cases m
  cases m'
  cases hentries
  rfl

/-! ## §4. Parts. -/

/-- The part of a map whose names are kept. -/
def restrict (m : NameMap α) (keep : String → Bool) : NameMap α where
  entries := m.entries.filter fun e => keep e.1
  sorted := m.sorted.filter _

theorem get?_restrict (m : NameMap α) (keep : String → Bool) (n : String) :
    (m.restrict keep).get? n = if keep n = true then m.get? n else none := by
  apply Option.ext
  intro v
  rw [← mem_entries_iff]
  show (n, v) ∈ m.entries.filter (fun e => keep e.1) ↔ _
  rw [List.mem_filter, mem_entries_iff]
  split
  · rename_i hn
    exact and_iff_left hn
  · rename_i hn
    exact iff_of_false (fun h => hn h.2) nofun

/-! ## §5. Maps of lists. -/

/-- Entries that are put in count before those that are there. -/
theorem get?_foldl_insert (es : List (String × α)) (m : NameMap α) (n : String) :
    (es.foldl (fun m e => m.insert e.1 e.2) m).get? n = ((ofList es).get? n).or (m.get? n) := by
  induction es generalizing m with
  | nil => rfl
  | cons e rest ih =>
    have hlist : (ofList (e :: rest)).get? n
        = ((ofList rest).get? n).or ((empty.insert e.1 e.2).get? n) := ih _
    rw [List.foldl_cons, ih, hlist, Option.or_assoc, get?_insert, get?_insert, get?_empty]
    split <;> simp

/-- Of two lists the second one counts. -/
theorem get?_ofList_append (es es' : List (String × α)) (n : String) :
    (ofList (es ++ es')).get? n = ((ofList es').get? n).or ((ofList es).get? n) := by
  rw [ofList, List.foldl_append, get?_foldl_insert]
  rfl

/-- An entry of a map that is built from a list stands in the list. -/
theorem mem_of_mem_ofList {es : List (String × α)} {e : String × α}
    (h : e ∈ (ofList es).entries) : e ∈ es := by
  have hfold : ∀ (es : List (String × α)) (m : NameMap α),
      e ∈ (es.foldl (fun m e => m.insert e.1 e.2) m).entries → e ∈ es ∨ e ∈ m.entries := by
    intro es
    induction es with
    | nil => exact fun _ h => Or.inr h
    | cons head rest ih =>
      intro m h
      rcases ih (m.insert head.1 head.2) h with h | h
      · exact Or.inl (List.mem_cons_of_mem _ h)
      · rcases mem_insertEntry h with h | h
        · exact Or.inl (h ▸ List.mem_cons_self)
        · exact Or.inr h
  rcases hfold es empty h with h | h
  · exact h
  · exact absurd h List.not_mem_nil

/-- A name of the list has a value in the map. -/
theorem exists_get?_ofList {es : List (String × α)} {n : String} {v : α} (h : (n, v) ∈ es) :
    ∃ w, (ofList es).get? n = some w := by
  obtain ⟨before, after, rfl⟩ := List.append_of_mem h
  rw [get?_ofList_append, show (n, v) :: after = [(n, v)] ++ after from rfl, get?_ofList_append]
  cases hafter : (ofList after).get? n with
  | some w => exact ⟨w, rfl⟩
  | none =>
    refine ⟨v, ?_⟩
    rw [ofList, List.foldl_cons, List.foldl_nil, get?_insert, if_pos rfl]
    rfl

/-- Where the list has one value for a name, this value stands in the map. -/
theorem get?_ofList_iff {es : List (String × α)} {n : String} {v : α}
    (h : ∀ v w, (n, v) ∈ es → (n, w) ∈ es → v = w) :
    (ofList es).get? n = some v ↔ (n, v) ∈ es := by
  constructor
  · exact fun hv => mem_of_mem_ofList (mem_entries_iff.2 hv)
  · intro hv
    obtain ⟨w, hw⟩ := exists_get?_ofList hv
    rw [hw, h v w hv (mem_of_mem_ofList (mem_entries_iff.2 hw))]

/-- An entry whose name comes after all others is put at the end. -/
theorem insertEntry_of_lt {name : String} {es : List (String × α)} (value : α)
    (h : ∀ e ∈ es, e.1 < name) : insertEntry name value es = es ++ [(name, value)] := by
  induction es with
  | nil => rfl
  | cons head rest ih =>
    obtain ⟨n, v⟩ := head
    have hn : n < name := h (n, v) List.mem_cons_self
    unfold insertEntry
    rw [if_neg (fun hlt => String.lt_irrefl n (String.lt_trans hn hlt)),
      if_neg (fun heq => String.lt_irrefl n (by rwa [heq] at hn)),
      ih fun e he => h e (List.mem_cons_of_mem _ he), List.cons_append]

/-- A map is built from its entries. -/
theorem ofList_entries (m : NameMap α) : ofList m.entries = m := by
  have hfold : ∀ (es : List (String × α)) (m' : NameMap α),
      (m'.entries ++ es).Pairwise (fun a b => a.1 < b.1) →
        (es.foldl (fun m e => m.insert e.1 e.2) m').entries = m'.entries ++ es := by
    intro es
    induction es with
    | nil => exact fun m' _ => (List.append_nil _).symm
    | cons head rest ih =>
      intro m' h
      have hinsert : (m'.insert head.1 head.2).entries = m'.entries ++ [head] :=
        insertEntry_of_lt head.2 fun e he =>
          (List.pairwise_append.1 h).2.2 e he head List.mem_cons_self
      rw [List.foldl_cons, ih, hinsert, List.append_assoc, List.singleton_append]
      rw [hinsert, List.append_assoc, List.singleton_append]
      exact h
  have hentries : (ofList m.entries).entries = m.entries := hfold m.entries empty m.sorted
  obtain ⟨es, hsorted⟩ := m
  generalize ofList es = m' at hentries
  cases m'
  cases hentries
  rfl

end NameMap

end ShapeEstimator

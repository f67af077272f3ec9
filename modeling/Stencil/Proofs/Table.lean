import Mathlib
import Stencil.Table

/-!
# Ordered tables

The names of a table ascend, so each of them occurs once.  Among the bindings that are added to a
table the last one of a name counts, and before those of the table itself.
-/

namespace Stencil

namespace Table

variable {α : Type} {table : Table α} {name : String} {value : α}

/-- The names of a table ascend. -/
def Ordered (table : Table α) : Prop :=
  table.Pairwise fun entry later => entry.1 < later.1

theorem ordered_nil : Ordered ([] : Table α) :=
  .nil

theorem mem_insert {entry : String × α} (hmem : entry ∈ insert name value table) :
    entry = (name, value) ∨ entry ∈ table := by
  induction table with
  | nil => exact .inl (List.mem_singleton.1 hmem)
  | cons first rest ih =>
    rw [insert] at hmem
    split at hmem
    · exact (List.mem_cons.1 hmem).imp_right (List.mem_cons_of_mem _)
    · split at hmem
      · exact List.mem_cons.1 hmem
      · rcases List.mem_cons.1 hmem with rfl | hrest
        · exact .inr List.mem_cons_self
        · exact (ih hrest).imp_right (List.mem_cons_of_mem _)

theorem Ordered.insert (hordered : table.Ordered) (name : String) (value : α) :
    (Table.insert name value table).Ordered := by
  induction table with
  | nil => exact List.pairwise_singleton _ _
  | cons first rest ih =>
    obtain ⟨key, old⟩ := first
    obtain ⟨hfirst, hrest⟩ := List.pairwise_cons.1 hordered
    rw [Table.insert]
    split
    · next hkey =>
      subst hkey
      exact List.pairwise_cons.2 ⟨hfirst, hrest⟩
    · next hkey =>
      split
      · next hlt =>
        refine List.pairwise_cons.2 ⟨List.forall_mem_cons.2 ⟨hlt, fun later hlater => ?_⟩, hordered⟩
        exact hlt.trans (hfirst later hlater)
      · next hlt =>
        refine List.pairwise_cons.2 ⟨fun later hlater => ?_, ih hrest⟩
        rcases mem_insert hlater with rfl | hmem
        · exact lt_of_le_of_ne (not_lt.1 hlt) hkey
        · exact hfirst later hmem

theorem Ordered.insertAll (hordered : table.Ordered) (entries : List (String × α)) :
    (Table.insertAll table entries).Ordered := by
  induction entries generalizing table with
  | nil => exact hordered
  | cons entry entries ih => exact ih (hordered.insert entry.1 entry.2)

theorem ordered_ofList (entries : List (String × α)) : (ofList entries).Ordered :=
  ordered_nil.insertAll entries

theorem Ordered.filter (hordered : table.Ordered) (keeps : String × α → Bool) :
    Ordered (List.filter keeps table) :=
  List.Pairwise.filter keeps hordered

theorem Ordered.nodup_names (hordered : table.Ordered) : table.names.Nodup :=
  List.pairwise_map.2 (hordered.imp fun hlt => ne_of_lt hlt)

/-- The first name of an ordered table is the least one. -/
theorem Ordered.head?_eq_some_iff (hordered : table.Ordered) :
    table.names.head? = some name ↔ IsLeast {other | other ∈ table.names} name := by
  cases table with
  | nil => simp [names, IsLeast]
  | cons entry rest =>
    have hleast : IsLeast {other | other ∈ names (entry :: rest)} entry.1 := by
      refine ⟨List.mem_cons_self, fun other hother => ?_⟩
      rcases List.mem_cons.1 hother with rfl | hrest
      · exact le_rfl
      · obtain ⟨later, hlater, rfl⟩ := List.mem_map.1 hrest
        exact ((List.pairwise_cons.1 hordered).1 later hlater).le
    constructor
    · intro hhead
      cases hhead
      exact hleast
    · exact fun hname => congrArg some (hleast.unique hname)

/-! ## Looking names up -/

theorem get?_eq_none (hname : name ∉ table.names) : get? name table = none := by
  induction table with
  | nil => rfl
  | cons entry rest ih =>
    obtain ⟨hne, hrest⟩ := not_or.1 (mt List.mem_cons.2 hname)
    rw [get?, if_neg (Ne.symm hne), ih hrest]

theorem get?_filter_of_keeps {keeps : String × α → Bool} (hkeeps : ∀ value, keeps (name, value)) :
    get? name (List.filter keeps table) = get? name table := by
  induction table with
  | nil => rfl
  | cons entry rest ih =>
    obtain ⟨key, first⟩ := entry
    rw [List.filter_cons]
    by_cases hkey : key = name
    · subst hkey
      rw [if_pos (hkeeps first), get?, get?, if_pos rfl, if_pos rfl]
    · have hskip : get? name ((key, first) :: rest) = get? name rest := by rw [get?, if_neg hkey]
      rw [hskip]
      split
      · rw [get?, if_neg hkey, ih]
      · exact ih

theorem get?_filter_of_drops {keeps : String × α → Bool}
    (hdrops : ∀ value, keeps (name, value) = false) :
    get? name (List.filter keeps table) = none := by
  refine get?_eq_none fun hname => ?_
  obtain ⟨⟨_, value⟩, hentry, rfl⟩ := List.mem_map.1 hname
  have hkeeps := (List.mem_filter.1 hentry).2
  rw [hdrops value] at hkeeps
  cases hkeeps

/-- Bindings of distinct names count before those of the table they are added to. -/
theorem get?_insertAll {entries : List (String × α)} (hdistinct : (names entries).Nodup)
    (table : Table α) :
    get? name (insertAll table entries) = (get? name entries).or (get? name table) := by
  induction entries generalizing table with
  | nil => rfl
  | cons entry entries ih =>
    obtain ⟨key, value⟩ := entry
    obtain ⟨hkey, hentries⟩ := List.nodup_cons.1 hdistinct
    have hrest : get? name (insertAll table ((key, value) :: entries)) =
        (get? name entries).or (get? name (insert key value table)) := ih hentries _
    rw [hrest, get?_insert, get?]
    by_cases hname : name = key
    · subst hname
      rw [get?_eq_none hkey, if_pos rfl, if_pos rfl]
      rfl
    · rw [if_neg hname, if_neg (Ne.symm hname)]

theorem get?_ofList {entries : List (String × α)} (hdistinct : (names entries).Nodup) :
    get? name (ofList entries) = get? name entries := by
  rw [ofList, get?_insertAll hdistinct, get?_nil, Option.or_none]

theorem mem_of_get? (hget : get? name table = some value) : (name, value) ∈ table := by
  induction table with
  | nil => cases hget
  | cons entry rest ih =>
    obtain ⟨key, first⟩ := entry
    rw [get?] at hget
    split at hget
    · next hkey =>
      cases hget
      exact hkey ▸ List.mem_cons_self
    · exact List.mem_cons_of_mem _ (ih hget)

/-- An ordered table binds its names to no more than one value each. -/
theorem Ordered.mem_iff (hordered : table.Ordered) :
    (name, value) ∈ table ↔ get? name table = some value := by
  refine ⟨fun hmem => ?_, mem_of_get?⟩
  induction table with
  | nil => cases hmem
  | cons entry rest ih =>
    obtain ⟨hfirst, hrest⟩ := List.pairwise_cons.1 hordered
    rw [get?]
    rcases List.mem_cons.1 hmem with rfl | hlater
    · exact if_pos rfl
    · rw [if_neg (hfirst _ hlater).ne]
      exact ih hrest hlater

/-- Ordered tables in which every name is bound to the same value are the same. -/
theorem Ordered.ext {other : Table α} (hordered : table.Ordered) (hother : other.Ordered)
    (hget : ∀ name, get? name table = get? name other) : table = other := by
  have hmem (entry : String × α) : entry ∈ table ↔ entry ∈ other := by
    rw [hordered.mem_iff, hother.mem_iff, hget]
  have hdistinct {table : Table α} (hordered : table.Ordered) : List.Nodup table :=
    hordered.nodup_names.of_map
  exact ((List.perm_ext_iff_of_nodup (hdistinct hordered) (hdistinct hother)).2 hmem).eq_of_pairwise
    (fun _ _ _ _ hlt hgt => absurd hlt hgt.not_gt) hordered hother

/-! ## Adding bindings -/

theorem insertAll_append (table : Table α) (entries later : List (String × α)) :
    insertAll table (entries ++ later) = insertAll (insertAll table entries) later :=
  List.foldl_append

/-- Bindings that are added to a table count before those of the table. -/
theorem get?_insertAll_ofList (name : String) (entries : List (String × α)) (table : Table α) :
    get? name (insertAll table entries) = (get? name (ofList entries)).or (get? name table) := by
  induction entries using List.reverseRecOn with
  | nil => rfl
  | append_singleton entries entry ih =>
    rw [ofList, insertAll_append, insertAll_append]
    change get? name (insert entry.1 entry.2 _) = (get? name (insert entry.1 entry.2 _)).or _
    rw [get?_insert, get?_insert]
    split
    · rfl
    · exact ih

/-- Of several bindings of a name the last one counts. -/
theorem get?_ofList_eq_find? (name : String) (entries : List (String × α)) :
    get? name (ofList entries) =
      (entries.reverse.find? fun entry => entry.1 = name).map Prod.snd := by
  induction entries using List.reverseRecOn with
  | nil => rfl
  | append_singleton entries entry ih =>
    rw [ofList, insertAll_append, List.reverse_append, List.reverse_singleton,
      List.singleton_append, List.find?_cons]
    change get? name (insert entry.1 entry.2 (ofList entries)) = _
    rw [get?_insert]
    by_cases hname : entry.1 = name
    · simp [hname]
    · simp [hname, Ne.symm hname, ih]

/-- Bindings may be collected in a table of their own before they are added. -/
theorem insertAll_ofList (hordered : table.Ordered) (entries : List (String × α)) :
    insertAll table (ofList entries) = insertAll table entries := by
  refine (hordered.insertAll _).ext (hordered.insertAll _) fun name => ?_
  rw [get?_insertAll (ordered_ofList entries).nodup_names, get?_insertAll_ofList]

/-- Of several tables the last one that has a name counts. -/
theorem get?_ofList_flatten (name : String) (tables : List (List (String × α))) :
    get? name (ofList tables.flatten) =
      tables.reverse.findSome? fun entries => get? name (ofList entries) := by
  induction tables using List.reverseRecOn with
  | nil => rfl
  | append_singleton tables entries ih =>
    rw [List.flatten_append, List.flatten_singleton, ofList, insertAll_append,
      get?_insertAll_ofList, List.reverse_append, List.reverse_singleton, List.singleton_append,
      List.findSome?_cons, ← ofList, ih]
    cases get? name (ofList entries) with
    | none => rfl
    | some value => rfl

/-! ## Names -/

theorem contains_iff : contains name table ↔ name ∈ table.names := by
  constructor
  · intro hcontains
    by_contra hname
    rw [contains, get?_eq_none hname] at hcontains
    cases hcontains
  · intro hname
    induction table with
    | nil => cases hname
    | cons entry rest ih =>
      rw [contains, get?]
      split
      · rfl
      · next hne =>
        exact ih ((List.mem_cons.1 hname).resolve_left (Ne.symm hne))

theorem contains_insert (key : String) (value : α) (table : Table α) :
    contains name (insert key value table) = (decide (name = key) || contains name table) := by
  rw [contains, contains, get?_insert]
  split
  · next hname => simp [hname]
  · next hname => simp [hname]

theorem contains_insertAll (entries : List (String × α)) (table : Table α) :
    contains name (insertAll table entries) =
      (contains name table || decide (name ∈ names entries)) := by
  induction entries generalizing table with
  | nil => simp [insertAll, names]
  | cons entry entries ih =>
    have hrest : contains name (insertAll table (entry :: entries)) =
        contains name (insertAll (insert entry.1 entry.2 table) entries) := rfl
    have hnames : names (entry :: entries) = entry.1 :: names entries := rfl
    simp only [hrest, ih, contains_insert, hnames, List.mem_cons, Bool.decide_or,
      Bool.or_comm (decide (name = entry.1)), Bool.or_assoc]

theorem mem_names_insertAll {entries : List (String × α)} :
    name ∈ (insertAll table entries).names ↔ name ∈ table.names ∨ name ∈ names entries := by
  rw [← contains_iff, contains_insertAll, Bool.or_eq_true, contains_iff, decide_eq_true_iff]

/-- A binding makes no difference if its name is bound once more behind it. -/
theorem insertAll_insert (hordered : table.Ordered) {entries : List (String × α)}
    (hname : name ∈ names entries) :
    insertAll (insert name value table) entries = insertAll table entries := by
  refine ((hordered.insert name value).insertAll _).ext (hordered.insertAll _) fun other => ?_
  rw [get?_insertAll_ofList, get?_insertAll_ofList, get?_insert]
  split
  · next hother =>
    have hbound : contains name (ofList entries) :=
      contains_iff.2 (mem_names_insertAll.2 (.inr hname))
    obtain ⟨bound, hbound⟩ := Option.isSome_iff_exists.1 hbound
    rw [hother, hbound, Option.some_or, Option.some_or]
  · rfl

theorem names_zip_sublist (names : List String) (values : List α) :
    (Table.names (names.zip values)).Sublist names := by
  induction names generalizing values with
  | nil => exact List.Sublist.refl []
  | cons name names ih =>
    cases values with
    | nil => exact List.nil_sublist _
    | cons value values => exact (ih values).cons_cons name

theorem mem_names_zip_iff {names : List String} {values : List α} :
    name ∈ Table.names (names.zip values) ↔
      ∃ index : Nat, names[index]? = some name ∧ index < values.length := by
  constructor
  · intro hname
    obtain ⟨entry, hentry, rfl⟩ := List.mem_map.1 hname
    obtain ⟨index, hindex⟩ := List.mem_iff_getElem?.1 hentry
    obtain ⟨hkey, hvalue⟩ := List.getElem?_zip_eq_some.1 hindex
    exact ⟨index, hkey, (List.getElem?_eq_some_iff.1 hvalue).1⟩
  · rintro ⟨index, hkey, hlt⟩
    have hentry : (names.zip values)[index]? = some (name, values[index]) :=
      List.getElem?_zip_eq_some.2 ⟨hkey, List.getElem?_eq_getElem hlt⟩
    exact List.mem_map.2 ⟨_, List.mem_of_getElem? hentry, rfl⟩

/-- Distinct names that are paired with some values have them in the order of both lists. -/
theorem get?_zip {names : List String} (hdistinct : names.Nodup) {index : Nat}
    (hname : names[index]? = some name) (values : List α) :
    get? name (names.zip values) = values[index]? := by
  induction names generalizing index values with
  | nil => simp at hname
  | cons first names ih =>
    obtain ⟨hfirst, hrest⟩ := List.nodup_cons.1 hdistinct
    cases values with
    | nil => rfl
    | cons value values =>
      rw [List.zip_cons_cons, get?]
      cases index with
      | zero =>
        obtain rfl : first = name := by simpa using hname
        rw [if_pos rfl, List.getElem?_cons_zero]
      | succ index =>
        rw [List.getElem?_cons_succ] at hname
        have hne : first ≠ name := fun heq => hfirst (heq ▸ List.mem_of_getElem? hname)
        rw [if_neg hne, ih hrest hname, List.getElem?_cons_succ]

end Table

end Stencil

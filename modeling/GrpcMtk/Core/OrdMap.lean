import Mathlib.Data.List.Nodup
import Mathlib.Logic.Function.Basic
import Mathlib.Order.Lattice

/-!
# Ordered maps

A finite map kept as a list of entries in the strict order of their keys, the
order in which an iteration over a `std::map` sees them.  Entries are
characterized by membership; the lookup is the membership of a key's only
entry.
-/

namespace GrpcMtk

structure OrdMap (Key Value : Type*) [LinearOrder Key] where
  entries : List (Key × Value)
  sorted : entries.Pairwise fun left right => left.1 < right.1

namespace OrdMap

variable {Key Value : Type*} [LinearOrder Key]

def empty : OrdMap Key Value := ⟨[], List.Pairwise.nil⟩

/-- Insert an entry before the first larger key, in place of the entry with
its own key. -/
def assignList (key : Key) (value : Value) :
    List (Key × Value) → List (Key × Value)
  | [] => [(key, value)]
  | entry :: rest =>
      if key < entry.1 then (key, value) :: entry :: rest
      else if key = entry.1 then (key, value) :: rest
      else entry :: assignList key value rest

theorem mem_assignList_of_mem {key : Key} {value : Value}
    {list : List (Key × Value)} {entry : Key × Value}
    (hmem : entry ∈ assignList key value list) :
    entry = (key, value) ∨ entry ∈ list := by
  induction list with
  | nil => exact Or.inl (List.mem_singleton.mp hmem)
  | cons head rest ih =>
      unfold assignList at hmem
      split at hmem
      · exact List.mem_cons.mp hmem
      · split at hmem
        · rcases List.mem_cons.mp hmem with hnew | hold
          · exact Or.inl hnew
          · exact Or.inr (List.mem_cons_of_mem _ hold)
        · rcases List.mem_cons.mp hmem with hhead | hrest
          · exact Or.inr (hhead ▸ List.mem_cons_self)
          · rcases ih hrest with hnew | hold
            · exact Or.inl hnew
            · exact Or.inr (List.mem_cons_of_mem _ hold)

theorem sorted_assignList (key : Key) (value : Value)
    {list : List (Key × Value)}
    (hsorted : list.Pairwise fun left right => left.1 < right.1) :
    (assignList key value list).Pairwise
      fun left right => left.1 < right.1 := by
  induction list with
  | nil => exact List.pairwise_singleton _ _
  | cons head rest ih =>
      obtain ⟨hhead, hrest⟩ := List.pairwise_cons.mp hsorted
      unfold assignList
      split
      case isTrue hlt =>
        apply List.pairwise_cons.mpr
        refine ⟨?_, hsorted⟩
        intro entry hentry
        rcases List.mem_cons.mp hentry with rfl | hmem
        · exact hlt
        · exact lt_trans hlt (hhead entry hmem)
      case isFalse hnlt =>
        split
        case isTrue heq =>
          exact List.pairwise_cons.mpr ⟨heq ▸ hhead, hrest⟩
        case isFalse hne =>
          apply List.pairwise_cons.mpr
          refine ⟨?_, ih hrest⟩
          intro entry hentry
          rcases mem_assignList_of_mem hentry with rfl | hmem
          · exact lt_of_le_of_ne (not_lt.mp hnlt) (Ne.symm hne)
          · exact hhead entry hmem

/-- `map[key] = value`. -/
def assign (map : OrdMap Key Value) (key : Key) (value : Value) :
    OrdMap Key Value :=
  ⟨assignList key value map.entries, sorted_assignList key value map.sorted⟩

/-- `map.erase(key)`. -/
def erase (map : OrdMap Key Value) (key : Key) : OrdMap Key Value :=
  ⟨map.entries.filter fun entry => entry.1 ≠ key,
    map.sorted.sublist List.filter_sublist⟩

/-- `map.find(key)`. -/
def find? (map : OrdMap Key Value) (key : Key) : Option Value :=
  (map.entries.find? fun entry => entry.1 = key).map Prod.snd

section Entries

variable {map : OrdMap Key Value} {key : Key} {value : Value}

@[simp]
theorem entries_empty : (empty : OrdMap Key Value).entries = [] := rfl

/-- A key has one entry. -/
theorem eq_of_mem {other : Value} (hleft : (key, value) ∈ map.entries)
    (hright : (key, other) ∈ map.entries) : value = other := by
  by_contra hne
  have hdistinct : (key, value) ≠ (key, other) := by
    simpa using hne
  rcases (List.pairwise_iff_getElem.mp map.sorted) with hlt
  obtain ⟨left, hleftBound, hleftEq⟩ := List.getElem_of_mem hleft
  obtain ⟨right, hrightBound, hrightEq⟩ := List.getElem_of_mem hright
  rcases Nat.lt_trichotomy left right with hbefore | hsame | hafter
  · have hkeys := hlt left right hleftBound hrightBound hbefore
    rw [hleftEq, hrightEq] at hkeys
    exact lt_irrefl key hkeys
  · subst hsame
    exact hdistinct (hleftEq.symm.trans hrightEq)
  · have hkeys := hlt right left hrightBound hleftBound hafter
    rw [hleftEq, hrightEq] at hkeys
    exact lt_irrefl key hkeys

theorem find?_eq_some : map.find? key = some value ↔
    (key, value) ∈ map.entries := by
  constructor
  · intro hfind
    obtain ⟨entry, hentry, hvalue⟩ := Option.map_eq_some_iff.mp hfind
    have hkey : entry.1 = key := by simpa using List.find?_some hentry
    have hmem := List.mem_of_find?_eq_some hentry
    rw [← hkey, ← hvalue]
    exact hmem
  · intro hmem
    cases hfind : map.find? key with
    | none =>
        rw [find?, Option.map_eq_none_iff, List.find?_eq_none] at hfind
        exact absurd (decide_eq_true rfl) (hfind (key, value) hmem)
    | some other =>
        obtain ⟨entry, hentry, hvalue⟩ := Option.map_eq_some_iff.mp hfind
        have hkey : entry.1 = key := by simpa using List.find?_some hentry
        have hother := List.mem_of_find?_eq_some hentry
        have hsame : (key, other) ∈ map.entries := by
          rw [← hkey, ← hvalue]
          exact hother
        rw [eq_of_mem hmem hsame]

theorem find?_eq_none : map.find? key = none ↔
    ∀ value, (key, value) ∉ map.entries := by
  constructor
  · intro hnone value hmem
    rw [find?_eq_some.mpr hmem] at hnone
    contradiction
  · intro habsent
    cases hfind : map.find? key with
    | none => rfl
    | some value => exact absurd (find?_eq_some.mp hfind) (habsent value)

@[simp]
theorem mem_erase {entry : Key × Value} : entry ∈ (map.erase key).entries ↔
    entry ∈ map.entries ∧ entry.1 ≠ key := by
  simp [erase]

theorem entries_foldl_erase (keys : List Key) :
    (keys.foldl erase map).entries =
      map.entries.filter fun entry => entry.1 ∉ keys := by
  induction keys generalizing map with
  | nil => simp
  | cons head rest ih =>
      rw [List.foldl_cons, ih, erase, List.filter_filter]
      apply List.filter_congr
      intro entry _
      simp [not_or, Bool.and_comm]

theorem mem_foldl_erase {keys : List Key} {entry : Key × Value} :
    entry ∈ (keys.foldl erase map).entries ↔
      entry ∈ map.entries ∧ entry.1 ∉ keys := by
  rw [entries_foldl_erase, List.mem_filter, decide_eq_true_eq]

/-- The keys erased are those of some of the entries. -/
theorem entries_foldl_erase_filter (erases : Key × Value → Bool) :
    (((map.entries.filter erases).map Prod.fst).foldl erase map).entries =
      map.entries.filter fun entry => !erases entry := by
  rw [entries_foldl_erase]
  apply List.filter_congr
  rintro ⟨key, value⟩ hentry
  have hkey : key ∈ (map.entries.filter erases).map Prod.fst ↔
      erases (key, value) = true := by
    constructor
    · intro hmem
      obtain ⟨⟨key, other⟩, hother, rfl⟩ := List.mem_map.mp hmem
      obtain ⟨hin, herases⟩ := List.mem_filter.mp hother
      rwa [eq_of_mem hentry hin]
    · intro herases
      exact List.mem_map_of_mem (List.mem_filter.mpr ⟨hentry, herases⟩)
  simp only [hkey, decide_not, Bool.decide_eq_true]

theorem find?_foldl_erase {keys : List Key} (hkey : key ∈ keys) :
    (keys.foldl erase map).find? key = none := by
  apply find?_eq_none.mpr
  intro value hmem
  exact (mem_foldl_erase.mp hmem).2 hkey

private theorem mem_assignList {list : List (Key × Value)}
    (hsorted : list.Pairwise fun left right => left.1 < right.1)
    {entry : Key × Value} : entry ∈ assignList key value list ↔
      entry = (key, value) ∨ entry ∈ list ∧ entry.1 ≠ key := by
  induction list with
  | nil => simp [assignList]
  | cons head rest ih =>
      obtain ⟨hhead, hrest⟩ := List.pairwise_cons.mp hsorted
      unfold assignList
      split
      case isTrue hlt =>
        have hlarger : ∀ other ∈ head :: rest, other.1 ≠ key := by
          intro other hother heq
          rcases List.mem_cons.mp hother with rfl | hmem
          · exact absurd heq (ne_of_gt hlt)
          · exact absurd heq (ne_of_gt (lt_trans hlt (hhead other hmem)))
        rw [List.mem_cons]
        exact or_congr_right
          ⟨fun hmem => ⟨hmem, hlarger entry hmem⟩, And.left⟩
      case isFalse hnlt =>
        split
        case isTrue heq =>
          have hlarger : ∀ other ∈ rest, other.1 ≠ key := by
            intro other hother
            rw [heq]
            exact ne_of_gt (hhead other hother)
          rw [List.mem_cons, List.mem_cons]
          apply or_congr_right
          constructor
          · exact fun hmem => ⟨Or.inr hmem, hlarger entry hmem⟩
          · rintro ⟨rfl | hmem, hne⟩
            · exact absurd heq.symm hne
            · exact hmem
        case isFalse hne =>
          rw [List.mem_cons, ih hrest, List.mem_cons]
          constructor
          · rintro (rfl | hnew | ⟨hmem, hkey⟩)
            · exact Or.inr ⟨Or.inl rfl, Ne.symm hne⟩
            · exact Or.inl hnew
            · exact Or.inr ⟨Or.inr hmem, hkey⟩
          · rintro (hnew | ⟨rfl | hmem, hkey⟩)
            · exact Or.inr (Or.inl hnew)
            · exact Or.inl rfl
            · exact Or.inr (Or.inr ⟨hmem, hkey⟩)

@[simp]
theorem mem_assign {entry : Key × Value} :
    entry ∈ (map.assign key value).entries ↔
      entry = (key, value) ∨ entry ∈ map.entries ∧ entry.1 ≠ key :=
  mem_assignList map.sorted

theorem find?_assign_self : (map.assign key value).find? key = some value :=
  find?_eq_some.mpr (mem_assign.mpr (Or.inl rfl))

theorem find?_assign_of_ne {other : Key} (hother : other ≠ key) :
    (map.assign key value).find? other = map.find? other := by
  apply Option.ext
  intro found
  rw [find?_eq_some, find?_eq_some, mem_assign]
  simp [hother]

theorem find?_assign_eq_some {other : Key} {found : Value} :
    (map.assign key value).find? other = some found ↔
      other = key ∧ found = value ∨
        other ≠ key ∧ map.find? other = some found := by
  rw [find?_eq_some, find?_eq_some, mem_assign, Prod.mk.injEq]
  exact or_congr Iff.rfl and_comm

theorem find?_erase_eq_some {other : Key} {found : Value} :
    (map.erase key).find? other = some found ↔
      other ≠ key ∧ map.find? other = some found := by
  rw [find?_eq_some, find?_eq_some, mem_erase, and_comm]

theorem nodup_keys (map : OrdMap Key Value) :
    (map.entries.map Prod.fst).Nodup :=
  List.pairwise_map.mpr (map.sorted.imp fun hlt => ne_of_lt hlt)

end Entries

/-! ## Lookups

The lookup of every key at once, as a function that an update changes in one
place.
-/

section Lookup

variable {Seen : Type*} (see : Value → Seen)

/-- What the map holds under each key. -/
def lookup (map : OrdMap Key Value) (key : Key) : Option Seen :=
  (map.find? key).map see

theorem lookup_eq_some {map : OrdMap Key Value} {key : Key} {seen : Seen} :
    map.lookup see key = some seen ↔
      ∃ value, (key, value) ∈ map.entries ∧ see value = seen := by
  rw [lookup, Option.map_eq_some_iff]
  exact exists_congr fun value => and_congr_left' find?_eq_some

theorem lookup_of_find? {map : OrdMap Key Value} {key : Key} {value : Value}
    (hfind : map.find? key = some value) :
    map.lookup see key = some (see value) := by
  rw [lookup, hfind, Option.map_some]

theorem find?_congr {left right : OrdMap Key Value} {key : Key}
    (hsame : ∀ value, (key, value) ∈ left.entries ↔
      (key, value) ∈ right.entries) : left.find? key = right.find? key := by
  apply Option.ext
  intro value
  rw [find?_eq_some, find?_eq_some, hsame]

theorem lookup_assign (map : OrdMap Key Value) (key : Key) (value : Value) :
    (map.assign key value).lookup see =
      Function.update (map.lookup see) key (some (see value)) := by
  funext other
  by_cases hother : other = key
  · subst hother
    rw [Function.update_self, lookup_eq_some]
    exact ⟨value, mem_assign.mpr (Or.inl rfl), rfl⟩
  · rw [Function.update_of_ne hother, lookup, lookup]
    congr 1
    apply find?_congr
    simp [hother]

theorem lookup_erase (map : OrdMap Key Value) (key : Key) :
    (map.erase key).lookup see =
      Function.update (map.lookup see) key none := by
  funext other
  by_cases hother : other = key
  · subst hother
    rw [Function.update_self, lookup, Option.map_eq_none_iff, find?_eq_none]
    simp
  · rw [Function.update_of_ne hother, lookup, lookup]
    congr 1
    apply find?_congr
    simp [hother]

theorem lookup_foldl_erase (map : OrdMap Key Value) (keys : List Key) :
    (keys.foldl erase map).lookup see =
      keys.foldl (fun table key => Function.update table key none)
        (map.lookup see) := by
  induction keys generalizing map with
  | nil => rfl
  | cons key rest ih =>
      rw [List.foldl_cons, List.foldl_cons, ih, lookup_erase]

end Lookup

end OrdMap

end GrpcMtk

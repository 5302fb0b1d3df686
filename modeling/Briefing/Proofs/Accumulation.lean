import Briefing.Selectors
import Mathlib.Data.List.Sort

/-!
# How selectors accumulate

Whatever is added to selectors comes down to accepting pairs of a key and a value one after the
other (`add_eq`), and so the pairs are all there is to tell: those that were added are accepted and
no others (`accepts_acceptAll`), in any order (`eq_of_accepts`). A document passes if each of its
values under a key with pairs is admitted by them (`matchesFrontMatter_iff`), and a value is
admitted by the pairs that it contributes itself (`accepts_merge`).
-/

namespace Briefing

/-! ## Tables -/

namespace Entries

variable {α : Type}

theorem mem_iff_get? {key : String} {value : α} {entries : Entries α} (h : Sorted entries) :
    (key, value) ∈ entries ↔ get? key entries = some value := by
  induction entries with
  | nil => simp [get?]
  | cons entry rest ih =>
    obtain ⟨k, v⟩ := entry
    obtain ⟨hk, hrest⟩ := List.pairwise_cons.mp h
    rw [List.mem_cons, ih hrest, get?, Prod.mk.injEq]
    split
    · rename_i heq
      subst heq
      have hnone : get? k rest ≠ some value := fun hget =>
        String.lt_irrefl k (hk _ ((ih hrest).mpr hget))
      simp [hnone, eq_comm]
    · rename_i hne
      simp [Ne.symm hne]

end Entries

namespace Table

variable {α : Type}

theorem mem_entries_iff {table : Table α} {key : String} {value : α} :
    (key, value) ∈ table.entries ↔ table.get? key = some value :=
  Entries.mem_iff_get? table.sorted

theorem contains_iff {table : Table α} {key : String} :
    table.contains key = true ↔ ∃ value, table.get? key = some value := Option.isSome_iff_exists

/-- A table is what it binds its keys to. -/
theorem ext_get? {table table' : Table α} (h : ∀ key, table.get? key = table'.get? key) :
    table = table' := by
  obtain ⟨entries, hsorted⟩ := table
  obtain ⟨entries', hsorted'⟩ := table'
  have hirrefl : Std.Irrefl fun a b : String × α => a.1 < b.1 := ⟨fun a => String.lt_irrefl a.1⟩
  have hantisymm : Std.Antisymm fun a b : String × α => a.1 < b.1 :=
    ⟨fun a b hab hba => absurd (String.lt_trans hab hba) (String.lt_irrefl a.1)⟩
  have hentries : entries = entries' :=
    List.Pairwise.eq_of_mem_iff hsorted hsorted' fun (key, value) => by
      rw [Entries.mem_iff_get? hsorted, Entries.mem_iff_get? hsorted']
      exact iff_of_eq (congrArg (· = some value) (h key))
  subst hentries
  rfl

end Table

namespace Selectors

open FrontMatter (Value)

/-! ## Accepting pairs -/

section Accept

/-- The selectors that accept further pairs, one after the other. -/
def acceptAll (selectors : Selectors) (pairs : List (String × String)) : Selectors :=
  pairs.foldl (fun selectors pair => selectors.accept pair.1 pair.2) selectors

theorem accepts_accept (selectors : Selectors) (key value key' value' : String) :
    (selectors.accept key value).accepts key' value' = true
      ↔ selectors.accepts key' value' = true ∨ (key', value') = (key, value) := by
  rw [accept, accepts, accepts, Table.get?_insert, Prod.mk.injEq, @eq_comm _ key',
    @eq_comm _ value']
  by_cases hkey : key = key'
  · subst hkey
    rcases selectors.get? key with _ | accepted <;> by_cases hvalue : value = value' <;>
      simp [Table.contains, hvalue, EmptyCollection.emptyCollection]
  · simp [hkey]

theorem contains_accept (selectors : Selectors) (key value key' : String) :
    (selectors.accept key value).contains key' = true
      ↔ selectors.contains key' = true ∨ key' = key := by
  rw [accept, Table.contains, Table.contains, Table.get?_insert]
  by_cases hkey : key = key'
  · simp [hkey]
  · simp [hkey, Ne.symm hkey]

theorem acceptAll_cons (selectors : Selectors) (pair : String × String)
    (pairs : List (String × String)) :
    selectors.acceptAll (pair :: pairs) = (selectors.accept pair.1 pair.2).acceptAll pairs := rfl

theorem acceptAll_append (selectors : Selectors) (pairs pairs' : List (String × String)) :
    selectors.acceptAll (pairs ++ pairs') = (selectors.acceptAll pairs).acceptAll pairs' :=
  List.foldl_append

/-- What is accepted was accepted before or is one of the pairs. -/
theorem accepts_acceptAll (key value : String) : ∀ (pairs : List (String × String))
    (selectors : Selectors), (selectors.acceptAll pairs).accepts key value = true
      ↔ selectors.accepts key value = true ∨ (key, value) ∈ pairs
  | [], _ => by simp [acceptAll]
  | pair :: pairs, selectors => by
    rw [acceptAll_cons, accepts_acceptAll key value pairs, accepts_accept, or_assoc, List.mem_cons]

theorem contains_acceptAll (key : String) : ∀ (pairs : List (String × String))
    (selectors : Selectors), (selectors.acceptAll pairs).contains key = true
      ↔ selectors.contains key = true ∨ ∃ value, (key, value) ∈ pairs
  | [], _ => by simp [acceptAll]
  | (k, v) :: pairs, selectors => by
    rw [acceptAll_cons, contains_acceptAll key pairs, contains_accept, or_assoc]
    simp only [List.mem_cons, Prod.mk.injEq, exists_or, exists_and_left, exists_eq, and_true]

/-- Every key has a value that is accepted under it. -/
def HasNoEmptyKey (selectors : Selectors) : Prop :=
  ∀ key accepted, selectors.get? key = some accepted → ∃ value, accepted.contains value = true

theorem accepts_eq_true_iff {selectors : Selectors} {key value : String} :
    selectors.accepts key value = true
      ↔ ∃ accepted, selectors.get? key = some accepted ∧ accepted.contains value = true := by
  rw [accepts]
  cases selectors.get? key <;> simp

theorem hasNoEmptyKey_acceptAll (pairs : List (String × String)) :
    HasNoEmptyKey (acceptAll ∅ pairs) := by
  intro key accepted hget
  rcases (contains_acceptAll key pairs ∅).mp (Table.contains_iff.mpr ⟨accepted, hget⟩)
    with hempty | ⟨value, hpair⟩
  · cases hempty
  · obtain ⟨accepted', hget', hvalue⟩ :=
      accepts_eq_true_iff.mp ((accepts_acceptAll key value pairs ∅).mpr (.inr hpair))
    obtain rfl : accepted' = accepted := Option.some.inj (hget'.symm.trans hget)
    exact ⟨value, hvalue⟩

/-- Selectors in which no key is empty are what they accept. -/
theorem eq_of_accepts {selectors selectors' : Selectors} (hs : selectors.HasNoEmptyKey)
    (hs' : selectors'.HasNoEmptyKey)
    (h : ∀ key value, selectors.accepts key value = true ↔ selectors'.accepts key value = true) :
    selectors = selectors' := by
  have hsome : ∀ {s s' : Selectors}, s.HasNoEmptyKey →
      (∀ key value, s.accepts key value = true ↔ s'.accepts key value = true) →
      ∀ {key accepted}, s.get? key = some accepted → s'.get? key = some accepted := by
    intro s s' hs h key accepted hget
    obtain ⟨value, hvalue⟩ := hs key accepted hget
    obtain ⟨accepted', hget', -⟩ :=
      accepts_eq_true_iff.mp ((h key value).mp (accepts_eq_true_iff.mpr ⟨accepted, hget, hvalue⟩))
    rw [hget']
    refine congrArg some (Table.ext_get? fun value => ?_)
    have hsame := h key value
    rw [accepts, accepts, hget, hget', Option.any_some, Option.any_some] at hsame
    -- a set binds its values to the one unit, so that it is told by what it contains
    unfold Table.contains at hsame
    cases hleft : accepted'.get? value <;> cases hright : accepted.get? value <;> simp_all
  refine Table.ext_get? fun key => ?_
  rcases hget : selectors.get? key with _ | accepted
  · rcases hget' : selectors'.get? key with _ | accepted
    · rfl
    · exact hget ▸ hsome hs' (fun key value => (h key value).symm) hget'
  · exact (hsome hs h hget).symm

end Accept

/-! ## Passing -/

section Pass

variable {selectors : Selectors} {fm : FrontMatter}

/-- A value is admitted under a key if it is an empty list or if it, or one of its items, is
accepted as it is rendered. -/
def Admits (selectors : Selectors) (key : String) (value : Value) : Prop :=
  value.alternatives = [] ∨ ∃ v ∈ value.alternatives, selectors.accepts key v.render = true

theorem passes_iff {key : String} {accepted : StringSet} (h : selectors.get? key = some accepted)
    (value : Value) : passes accepted value = true ↔ selectors.Admits key value := by
  simp only [Admits, accepts, h, Option.any_some]
  cases value with
  | list items => simp [passes, Value.alternatives, List.isEmpty_iff]
  | null | bool _ | number _ | string _ | map _ => simp [passes, Value.alternatives]

/-- Frontmatter passes if its value under each key of the selectors is admitted there. -/
theorem matchesFrontMatter_iff : selectors.matchesFrontMatter fm = true
    ↔ ∀ key value, selectors.contains key = true → fm.get? key = some value →
      selectors.Admits key value := by
  rw [matchesFrontMatter, List.all_eq_true]
  constructor
  · intro h key value hkey hvalue
    obtain ⟨accepted, hget⟩ := Table.contains_iff.mp hkey
    have hpasses := h (key, accepted) (Table.mem_entries_iff.mpr hget)
    dsimp only at hpasses
    rw [hvalue] at hpasses
    exact (passes_iff hget value).mp hpasses
  · rintro h ⟨key, accepted⟩ hentry
    have hget := Table.mem_entries_iff.mp hentry
    dsimp only
    rcases hvalue : fm.get? key with _ | value
    · rfl
    · exact (passes_iff hget value).mpr
        (h key value (Table.contains_iff.mpr ⟨accepted, hget⟩) hvalue)

theorem Admits.mono {selectors' : Selectors} {key : String} {value : Value}
    (h : selectors.Admits key value)
    (hle : ∀ v, selectors.accepts key v = true → selectors'.accepts key v = true) :
    selectors'.Admits key value := by
  rcases h with hempty | ⟨v, hv, haccepts⟩
  · exact .inl hempty
  · exact .inr ⟨v, hv, hle _ haccepts⟩

end Pass

/-! ## Merging a mapping -/

section Merge

/-- The pairs that a mapping asks for. -/
def pairsOf (entries : List (String × Value)) : List (String × String) :=
  entries.flatMap fun e => e.2.alternatives.map fun v => (e.1, v.render)

theorem merge_eq : ∀ (entries : List (String × Value)) (selectors : Selectors),
    selectors.merge entries = selectors.acceptAll (pairsOf entries)
  | [], _ => rfl
  | (key, value) :: entries, selectors => by
    rw [pairsOf, List.flatMap_cons, acceptAll_append, ← pairsOf, ← merge_eq entries, merge,
      List.foldl_cons, ← merge, acceptAll, List.foldl_map]

theorem mem_pairsOf {mapping : FrontMatter} {key text : String} :
    (key, text) ∈ pairsOf mapping.entries
      ↔ ∃ value, mapping.get? key = some value ∧ ∃ v ∈ value.alternatives, v.render = text := by
  rw [pairsOf, List.mem_flatMap]
  constructor
  · rintro ⟨⟨k, value⟩, hentry, hpair⟩
    obtain ⟨v, hv, hsame⟩ := List.mem_map.mp hpair
    obtain ⟨rfl, rfl⟩ := Prod.mk.inj hsame
    exact ⟨value, Table.mem_entries_iff.mp hentry, v, hv, rfl⟩
  · rintro ⟨value, hget, v, hv, rfl⟩
    exact ⟨(key, value), Table.mem_entries_iff.mpr hget, List.mem_map.mpr ⟨v, hv, rfl⟩⟩

variable {mapping : FrontMatter} {key : String}

/-- Selectors say the same as before under the keys that a mapping does not have. -/
theorem merge_outside (selectors : Selectors) (h : mapping.get? key = none) :
    ((selectors.merge mapping.entries).contains key = true ↔ selectors.contains key = true)
      ∧ ∀ text, (selectors.merge mapping.entries).accepts key text = true
        ↔ selectors.accepts key text = true := by
  have hpairs : ∀ text, (key, text) ∉ pairsOf mapping.entries := fun text hpair => by
    obtain ⟨value, hget, -⟩ := mem_pairsOf.mp hpair
    cases h.symm.trans hget
  rw [merge_eq]
  refine ⟨?_, fun text => ?_⟩
  · rw [contains_acceptAll]
    exact or_iff_left fun ⟨text, hpair⟩ => hpairs text hpair
  · rw [accepts_acceptAll]
    exact or_iff_left (hpairs text)

/-- A mapping's values are admitted once it is merged. -/
theorem admits_merge (selectors : Selectors) {value : Value} (h : mapping.get? key = some value) :
    (selectors.merge mapping.entries).Admits key value := by
  rw [Admits, merge_eq]
  rcases halternatives : value.alternatives with _ | ⟨v, rest⟩
  · exact .inl rfl
  · have hv : v ∈ value.alternatives := halternatives ▸ List.mem_cons_self
    exact .inr ⟨v, List.mem_cons_self, (accepts_acceptAll key v.render _ selectors).mpr
      (.inr (mem_pairsOf.mpr ⟨value, h, v, hv, rfl⟩))⟩

/-- Frontmatter with the values of a merged mapping passes if its values under the other keys are
admitted by the selectors as they were. -/
theorem matchesFrontMatter_merge (selectors : Selectors) (mapping : FrontMatter) :
    (∀ fm : FrontMatter, (∀ key value, mapping.get? key = some value → fm.get? key = some value) →
        ((selectors.merge mapping.entries).matchesFrontMatter fm = true
          ↔ ∀ key value, mapping.get? key = none → selectors.contains key = true →
            fm.get? key = some value → selectors.Admits key value))
      ∧ (selectors.merge mapping.entries).matchesFrontMatter mapping = true := by
  have hiff : ∀ fm : FrontMatter,
      (∀ key value, mapping.get? key = some value → fm.get? key = some value) →
        ((selectors.merge mapping.entries).matchesFrontMatter fm = true
          ↔ ∀ key value, mapping.get? key = none → selectors.contains key = true →
            fm.get? key = some value → selectors.Admits key value) := by
    intro fm hfm
    rw [matchesFrontMatter_iff]
    constructor
    · intro h key value hnone hkey hvalue
      obtain ⟨hcontains, haccepts⟩ := merge_outside selectors hnone
      exact (h key value (hcontains.mpr hkey) hvalue).mono fun v => (haccepts v).mp
    · intro h key value hkey hvalue
      rcases hget : mapping.get? key with _ | value'
      · obtain ⟨hcontains, haccepts⟩ := merge_outside selectors hget
        exact (h key value hget (hcontains.mp hkey) hvalue).mono fun v => (haccepts v).mpr
      · obtain rfl : value' = value := Option.some.inj ((hfm key value' hget).symm.trans hvalue)
        exact admits_merge selectors hget
  refine ⟨hiff, (hiff mapping fun _ _ h => h).mpr fun key value hnone _ hsome => ?_⟩
  cases hnone.symm.trans hsome

/-- Selectors for a language and a system. -/
def languageSelectors : Selectors := (accept ∅ "lang" "go").accept "os" "linux"

/-- A mapping with a list of lists, an empty list and a null. -/
def languageMapping : FrontMatter :=
  Table.ofList [("lang", .list [.list [.string "rust", .bool true]]), ("env", .list []),
    ("note", .null)]

/-- Merging the mapping opens its keys to its own values and leaves the system to be asked for. -/
theorem matchesFrontMatter_merge_lists :
    (languageSelectors.merge languageMapping.entries).matchesFrontMatter
        (languageMapping.insert "os" (.string "linux")) = true
      ∧ (languageSelectors.merge languageMapping.entries).matchesFrontMatter
        (languageMapping.insert "os" (.string "macos")) = false
      ∧ languageSelectors.matchesFrontMatter languageMapping = false := by
  have hhas : ∀ system key value, languageMapping.get? key = some value →
      (languageMapping.insert "os" system).get? key = some value := by
    intro system key value hget
    rw [Table.get?_insert, if_neg, hget]
    rintro rfl
    cases hget
  have hmerge := (matchesFrontMatter_merge languageSelectors languageMapping).1
  refine ⟨(hmerge _ (hhas _)).mpr fun key value hnone hkey hvalue => ?_, ?_, by decide +kernel⟩
  · rw [languageSelectors, contains_accept, contains_accept] at hkey
    rcases hkey with (hempty | rfl) | rfl
    · cases hempty
    · cases hnone
    · obtain rfl := Option.some.inj hvalue
      exact .inr ⟨_, List.mem_cons_self, by decide +kernel⟩
  · rw [← Bool.not_eq_true, hmerge _ (hhas _)]
    intro h
    rcases h "os" (.string "macos") rfl (by decide +kernel) rfl with hnil | ⟨v, hv, haccepts⟩
    · cases hnil
    · obtain rfl := List.mem_singleton.mp hv
      revert haccepts
      decide +kernel

end Merge

/-! ## Additions -/

section Additions

/-- Something to add to selectors. -/
inductive Addition
  | assignment (item : String)
  | pair (key value : String)
  | mapping (entries : FrontMatter)

/-- The selectors with an addition. An assignment that is none is refused. -/
def add? (selectors : Selectors) : Addition → Option Selectors
  | .assignment item => selectors.assign? item
  | .pair key value => some (selectors.accept key value)
  | .mapping entries => some (selectors.merge entries.entries)

/-- The selectors after an addition, which are as before if it is refused. -/
def add (selectors : Selectors) (addition : Addition) : Selectors :=
  (selectors.add? addition).getD selectors

/-- The selectors after additions in turn. -/
def addAll (selectors : Selectors) (additions : List Addition) : Selectors :=
  additions.foldl add selectors

/-- An addition contributes a value under a key. An assignment contributes what stands behind its
first equals sign under what stands before it, both without blanks around them, unless nothing
stands before it. A mapping contributes its values as they are rendered, or the items of those that
are lists. -/
inductive Contributes : Addition → String → String → Prop
  | assignment {before after : List Char} (hfirst : '=' ∉ before)
      (hkey : Text.trimChars before ≠ []) :
      Contributes (.assignment (String.ofList (before ++ '=' :: after)))
        (String.ofList (Text.trimChars before)) (String.ofList (Text.trimChars after))
  | pair (key value : String) : Contributes (.pair key value) key value
  | value {mapping : FrontMatter} {key : String} {value : Value}
      (hget : mapping.get? key = some value) (hlist : ∀ items, value ≠ .list items) :
      Contributes (.mapping mapping) key value.render
  | item {mapping : FrontMatter} {key : String} {items : List Value} {item : Value}
      (hget : mapping.get? key = some (.list items)) (hitem : item ∈ items) :
      Contributes (.mapping mapping) key item.render

/-- The pairs of an addition, in their order. -/
def Addition.pairs : Addition → List (String × String)
  | .assignment item =>
    ((parseAssignment item).map fun (key, value) => (key, Text.trim value)).toList
  | .pair key value => [(key, value)]
  | .mapping entries => pairsOf entries.entries

theorem add_eq (selectors : Selectors) : ∀ addition : Addition,
    selectors.add addition = selectors.acceptAll addition.pairs
  | .assignment item => by
    rw [add, add?, assign?, Addition.pairs]
    cases parseAssignment item <;> rfl
  | .pair _ _ => rfl
  | .mapping entries => merge_eq entries.entries selectors

theorem addAll_eq : ∀ (additions : List Addition) (selectors : Selectors),
    selectors.addAll additions = selectors.acceptAll (additions.flatMap Addition.pairs)
  | [], _ => rfl
  | addition :: additions, selectors => by
    rw [addAll, List.foldl_cons, ← addAll, addAll_eq additions, add_eq, List.flatMap_cons,
      acceptAll_append]

theorem cutAssign_eq_some_iff : ∀ {text before after : List Char},
    cutAssign text = some (before, after) ↔ '=' ∉ before ∧ text = before ++ '=' :: after
  | [], before, after => by simp [cutAssign]
  | c :: text, before, after => by
    rw [cutAssign]
    split
    · rename_i hc
      subst hc
      cases before with
      | nil => simp
      | cons b before => simp_all [eq_comm]
    · rename_i hc
      rw [Option.map_eq_some_iff]
      constructor
      · rintro ⟨⟨front, back⟩, hcut, hsame⟩
        obtain ⟨rfl, rfl⟩ := Prod.mk.inj hsame
        obtain ⟨hfront, rfl⟩ := cutAssign_eq_some_iff.mp hcut
        exact ⟨by simp [Ne.symm hc, hfront], rfl⟩
      · rintro ⟨hbefore, htext⟩
        cases before with
        | nil => exact absurd (List.cons.inj htext).1 hc
        | cons b before =>
          obtain ⟨rfl, rfl⟩ := List.cons.inj htext
          exact ⟨(before, after), cutAssign_eq_some_iff.mpr ⟨by simp_all, rfl⟩, rfl⟩

theorem parseAssignment_eq_some_iff {item key value : String} :
    parseAssignment item = some (key, value) ↔ ∃ before after : List Char, '=' ∉ before
      ∧ Text.trimChars before ≠ [] ∧ item = String.ofList (before ++ '=' :: after)
      ∧ key = String.ofList (Text.trimChars before) ∧ value = String.ofList after := by
  rw [parseAssignment, Option.bind_eq_some_iff]
  constructor
  · rintro ⟨⟨before, after⟩, hcut, hkey⟩
    obtain ⟨hfirst, htext⟩ := cutAssign_eq_some_iff.mp hcut
    dsimp only at hkey
    split_ifs at hkey with hempty
    obtain ⟨rfl, rfl⟩ := Prod.mk.inj (Option.some.inj hkey)
    exact ⟨before, after, hfirst, by simpa using hempty, by rw [← htext, String.ofList_toList], rfl,
      rfl⟩
  · rintro ⟨before, after, hfirst, hkey, rfl, rfl, rfl⟩
    refine ⟨(before, after), cutAssign_eq_some_iff.mpr ⟨hfirst, String.toList_ofList⟩, ?_⟩
    exact if_neg (by simpa using hkey)

theorem trim_ofList (text : List Char) :
    Text.trim (String.ofList text) = String.ofList (Text.trimChars text) := by
  rw [Text.trim, String.toList_ofList]

/-- An addition's pairs are what it contributes. -/
theorem mem_pairs_iff {key value : String} : ∀ {addition : Addition},
    (key, value) ∈ addition.pairs ↔ Contributes addition key value
  | .assignment item => by
    rw [Addition.pairs, Option.mem_toList, Option.map_eq_some_iff]
    constructor
    · rintro ⟨⟨k, v⟩, hparse, hsame⟩
      obtain ⟨rfl, rfl⟩ := Prod.mk.inj hsame
      obtain ⟨before, after, hfirst, hkey, rfl, rfl, rfl⟩ := parseAssignment_eq_some_iff.mp hparse
      rw [trim_ofList]
      exact .assignment hfirst hkey
    · rintro ⟨⟩
      rename_i before after hfirst hkey
      exact ⟨_, parseAssignment_eq_some_iff.mpr ⟨before, after, hfirst, hkey, rfl, rfl, rfl⟩,
        congrArg (Prod.mk _) (trim_ofList after)⟩
  | .pair _ _ => by
    rw [Addition.pairs, List.mem_singleton]
    constructor
    · rintro ⟨⟩
      exact .pair key value
    · rintro ⟨⟩
      rfl
  | .mapping entries => by
    rw [Addition.pairs, mem_pairsOf]
    constructor
    · rintro ⟨value, hget, v, hv, rfl⟩
      cases value with
      | list items => exact .item hget hv
      | null | bool _ | number _ | string _ | map _ =>
        obtain rfl := List.mem_singleton.mp hv
        exact .value hget (by simp)
    · rintro (_ | _ | ⟨hget, hlist⟩ | ⟨hget, hitem⟩)
      · rename_i value
        refine ⟨value, hget, value, ?_, rfl⟩
        cases value with
        | list items => exact absurd rfl (hlist items)
        | null | bool _ | number _ | string _ | map _ => exact List.mem_singleton.mpr rfl
      · exact ⟨_, hget, _, hitem, rfl⟩

theorem accepts_addAll (additions : List Addition) (key value : String) :
    (addAll ∅ additions).accepts key value = true
      ↔ ∃ addition ∈ additions, Contributes addition key value := by
  rw [addAll_eq, accepts_acceptAll, List.mem_flatMap]
  simp only [mem_pairs_iff]
  exact or_iff_right fun h => by cases h

theorem hasNoEmptyKey_addAll (additions : List Addition) :
    HasNoEmptyKey (addAll ∅ additions) := by
  rw [addAll_eq]
  exact hasNoEmptyKey_acceptAll _

variable {selectors : Selectors} {addition : Addition} {fm : FrontMatter}

/-- More values under keys that are there let no less pass. -/
theorem matchesFrontMatter_add
    (h : ∀ key value, Contributes addition key value → selectors.contains key = true)
    (hmatches : selectors.matchesFrontMatter fm = true) :
    (selectors.add addition).matchesFrontMatter fm = true := by
  rw [matchesFrontMatter_iff] at hmatches ⊢
  intro key value hkey hvalue
  rw [add_eq, contains_acceptAll] at hkey
  have hbefore : selectors.contains key = true :=
    hkey.elim id fun ⟨text, hpair⟩ => h key text (mem_pairs_iff.mp hpair)
  refine (hmatches key value hbefore hvalue).mono fun v hv => ?_
  rw [add_eq, accepts_acceptAll]
  exact .inl hv

/-- Values under new keys let no more pass. -/
theorem matchesFrontMatter_of_add
    (h : ∀ key value, Contributes addition key value → selectors.contains key = false)
    (hmatches : (selectors.add addition).matchesFrontMatter fm = true) :
    selectors.matchesFrontMatter fm = true := by
  rw [matchesFrontMatter_iff] at hmatches ⊢
  intro key value hkey hvalue
  have hafter : (selectors.add addition).contains key = true := by
    rw [add_eq, contains_acceptAll]
    exact .inl hkey
  refine (hmatches key value hafter hvalue).mono fun v hv => ?_
  rw [add_eq, accepts_acceptAll] at hv
  refine hv.resolve_right fun hpair => ?_
  rw [h key v (mem_pairs_iff.mp hpair)] at hkey
  cases hkey

/-- Selectors hold what was contributed to them and nothing else, in whatever order and however
often. More values under a key that is there turn no match into a mismatch, and values under a new
key no mismatch into a match. -/
theorem addAll_accumulates :
    (∀ additions : List Addition,
        (∀ key value, (addAll ∅ additions).accepts key value = true
          ↔ ∃ addition ∈ additions, Contributes addition key value)
        ∧ HasNoEmptyKey (addAll ∅ additions))
      ∧ (∀ additions additions' : List Addition,
        (∀ key value, (∃ addition ∈ additions, Contributes addition key value)
          ↔ ∃ addition ∈ additions', Contributes addition key value) →
        addAll ∅ additions = addAll ∅ additions')
      ∧ ∀ (selectors : Selectors) (addition : Addition) (fm : FrontMatter),
        ((∀ key value, Contributes addition key value → selectors.contains key = true) →
          selectors.matchesFrontMatter fm = true →
          (selectors.add addition).matchesFrontMatter fm = true)
        ∧ ((∀ key value, Contributes addition key value → selectors.contains key = false) →
          selectors.matchesFrontMatter fm = false →
          (selectors.add addition).matchesFrontMatter fm = false) := by
  refine ⟨fun additions => ⟨accepts_addAll additions, hasNoEmptyKey_addAll additions⟩,
    fun additions additions' h => ?_, fun selectors addition fm => ⟨matchesFrontMatter_add, ?_⟩⟩
  · refine eq_of_accepts (hasNoEmptyKey_addAll _) (hasNoEmptyKey_addAll _) fun key value => ?_
    rw [accepts_addAll, accepts_addAll]
    exact h key value
  · intro h hmatches
    rw [← Bool.not_eq_true] at hmatches ⊢
    exact fun hadded => hmatches (matchesFrontMatter_of_add h hadded)

/-- Additions of each kind, one of which is no assignment. -/
def systemAdditions : List Addition :=
  [.assignment " os = linux ", .assignment "os", .mapping languageMapping]

/-- The order of the additions does not count, nor does one that is made again; another system
keeps what passed, and a new key keeps what did not. -/
theorem addAll_accumulates_systems :
    (addAll ∅ systemAdditions).accepts "os" "linux" = true
      ∧ (addAll ∅ systemAdditions).accepts "lang" "[rust true]" = true
      ∧ addAll ∅ (systemAdditions.reverse ++ systemAdditions) = addAll ∅ systemAdditions
      ∧ ((addAll ∅ systemAdditions).add (.pair "os" "macos")).matchesFrontMatter languageMapping
        = true
      ∧ ((addAll ∅ systemAdditions).add (.pair "kind" "rule")).matchesFrontMatter
        (Table.ofList [("os", .string "macos")]) = false := by
  obtain ⟨hruns, hsame, hadds⟩ := addAll_accumulates
  obtain ⟨hpairs, -⟩ := hruns systemAdditions
  refine ⟨(hpairs _ _).mpr ⟨.assignment " os = linux ", List.mem_cons_self, ?_⟩, by decide +kernel,
    hsame _ _ fun key value => ?_, (hadds _ _ _).1 ?_ (by decide +kernel),
    (hadds _ _ _).2 ?_ (by decide +kernel)⟩
  · exact @Contributes.assignment " os ".toList " linux ".toList (by decide) (by decide +kernel)
  · simp only [List.mem_append, List.mem_reverse, or_self]
  · rintro _ _ ⟨⟩
    decide +kernel
  · rintro _ _ ⟨⟩
    decide +kernel

end Additions

end Selectors

end Briefing

import Briefing.Skill
import Briefing.Text.Search
import Mathlib.Data.List.Basic
import Mathlib.Data.List.Defs

/-!
# The block of skills is read back

A field has none of the characters that start and end tags once it is escaped, and it is got back
from its entities (`unescapeChars_flatMap`). So the tags of the block are those of the lines that it
is made of, and what stands before a closing tag is the field that was put there. Reading these
fields gives the skills as they were listed, in their order (`renderAll_readable`).
-/

namespace Briefing.Skill

/-- What the block says about a skill. -/
structure Listed where
  name : String
  description : String
  location : String
  deriving DecidableEq, Repr

/-- What the block says about the skill. -/
def listed (s : Skill) : Listed := ⟨s.name, s.description, s.path.text⟩

/-- A tag, with what stands before it and behind the tag before it. -/
structure Tag where
  before : List Char
  name : List Char

/-! ## Reading a block -/

/-- A field as it was before it was escaped. -/
def unescapeChars : List Char → List Char
  | '&' :: 'a' :: 'm' :: 'p' :: ';' :: s => '&' :: unescapeChars s
  | '&' :: 'l' :: 't' :: ';' :: s => '<' :: unescapeChars s
  | '&' :: 'g' :: 't' :: ';' :: s => '>' :: unescapeChars s
  | '&' :: 'q' :: 'u' :: 'o' :: 't' :: ';' :: s => '"' :: unescapeChars s
  | '&' :: 'a' :: 'p' :: 'o' :: 's' :: ';' :: s => '\'' :: unescapeChars s
  | c :: s => c :: unescapeChars s
  | [] => []

/-- The tags of a text. A `>` ends the tag that the first `<` behind the tag before starts. -/
def tagsOf (s : List Char) : List Tag :=
  (s.splitOn '>').dropLast.map fun part =>
    ⟨part.takeWhile (· ≠ '<'), (part.dropWhile (· ≠ '<')).tail⟩

/-- The fields that tags of a name close. -/
def closedBy (name : String) (tags : List Tag) : List String :=
  (tags.filter (·.name = name.toList)).map fun tag => String.ofList (unescapeChars tag.before)

/-- The skills that a block lists. -/
def readAll (block : String) : List Listed :=
  let tags := tagsOf block.toList
  List.zipWith3 Listed.mk (closedBy "/name" tags) (closedBy "/description" tags)
    (closedBy "/location" tags)

/-- The names of the tags of the lines for one skill. -/
def tagNamesOfOne : List String :=
  ["skill", "name", "/name", "description", "/description", "location", "/location", "/skill"]

/-- The names of the tags of a block for so many skills. -/
def tagNames : Nat → List String
  | 0 => []
  | n + 1 =>
    "available_skills" :: (List.replicate (n + 1) tagNamesOfOne).flatten ++ ["/available_skills"]

/-! ## Entities -/

theorem unescapeChars_cons {c : Char} (h : c ≠ '&') (s : List Char) :
    unescapeChars (c :: s) = c :: unescapeChars s := by
  conv_lhs => unfold unescapeChars
  split <;> simp_all

theorem unescapeChars_escapeChar (c : Char) (s : List Char) :
    unescapeChars (escapeChar c ++ s) = c :: unescapeChars s := by
  unfold escapeChar
  split_ifs with hamp hlt hgt hquot hapos
  · rw [hamp]
    rfl
  · rw [hlt]
    rfl
  · rw [hgt]
    rfl
  · rw [hquot]
    rfl
  · rw [hapos]
    rfl
  · exact unescapeChars_cons hamp s

theorem unescapeChars_flatMap (text : List Char) :
    unescapeChars (text.flatMap escapeChar) = text := by
  induction text with
  | nil => rfl
  | cons c text ih => rw [List.flatMap_cons, unescapeChars_escapeChar, ih]

-- A field that looks like an entity is not taken for one.
example : unescapeChars ("&lt;".toList.flatMap escapeChar) = "&lt;".toList := by decide

theorem notMem_escapeChar {c d : Char} (hd : d = '<' ∨ d = '>') : d ∉ escapeChar c := by
  unfold escapeChar
  split_ifs with hamp hlt hgt hquot hapos
  · rcases hd with rfl | rfl <;> decide
  · rcases hd with rfl | rfl <;> decide
  · rcases hd with rfl | rfl <;> decide
  · rcases hd with rfl | rfl <;> decide
  · rcases hd with rfl | rfl <;> decide
  · rw [List.mem_singleton]
    rintro rfl
    exact hd.elim hlt hgt

theorem notMem_escape {d : Char} (hd : d = '<' ∨ d = '>') (text : String) :
    d ∉ (escape text).toList := by
  rw [escape, String.toList_ofList, List.mem_flatMap]
  rintro ⟨c, -, hc⟩
  exact notMem_escapeChar hd hc

/-! ## Tags -/

/-- Tags as they are written. -/
def writeTags (tags : List Tag) : List Char :=
  tags.flatMap fun tag => tag.before ++ '<' :: tag.name ++ ['>']

/-- Nothing in a tag or before it looks like the start or the end of a tag. -/
structure Tag.IsClean (tag : Tag) : Prop where
  starts : '<' ∉ tag.before
  ends : '>' ∉ tag.before
  name : '>' ∉ tag.name

theorem tagsOf_cons {tag : Tag} (h : tag.IsClean) (rest : List Char) :
    tagsOf (tag.before ++ '<' :: tag.name ++ '>' :: rest) = tag :: tagsOf rest := by
  have hends : '>' ∉ tag.before ++ '<' :: tag.name := by
    simp [h.ends, h.name]
  have hall : ∀ c ∈ tag.before, decide (c ≠ '<') = true := by
    intro c hc
    rw [decide_eq_true_iff]
    rintro rfl
    exact h.starts hc
  rw [tagsOf, Text.splitOn_cut hends, List.dropLast_cons_of_ne_nil (List.splitOn_ne_nil _ _),
    List.map_cons, List.takeWhile_append_of_pos hall, List.dropWhile_append_of_pos hall, tagsOf]
  simp

theorem tagsOf_writeTags {tags : List Tag} (h : ∀ tag ∈ tags, tag.IsClean) :
    tagsOf (writeTags tags) = tags := by
  induction tags with
  | nil => rfl
  | cons tag tags ih =>
    obtain ⟨htag, htags⟩ := List.forall_mem_cons.mp h
    rw [writeTags, List.flatMap_cons, List.append_assoc, List.singleton_append, tagsOf_cons htag]
    exact congrArg (tag :: ·) (ih htags)

/-! ## The block -/

/-- The tags of the lines for one skill. -/
def tags (l : Listed) : List Tag :=
  [⟨"\n  ".toList, "skill".toList⟩, ⟨"\n    ".toList, "name".toList⟩,
    ⟨(escape l.name).toList, "/name".toList⟩, ⟨"\n    ".toList, "description".toList⟩,
    ⟨(escape l.description).toList, "/description".toList⟩,
    ⟨"\n    ".toList, "location".toList⟩, ⟨(escape l.location).toList, "/location".toList⟩,
    ⟨"\n  ".toList, "/skill".toList⟩]

/-- The tags of a block. -/
def blockTags : List Listed → List Tag
  | [] => []
  | l :: ls =>
    ⟨[], "available_skills".toList⟩ :: (l :: ls).flatMap tags
      ++ [⟨['\n'], "/available_skills".toList⟩]

theorem isClean_field (text : String) {name : List Char} (h : '>' ∉ name) :
    Tag.IsClean ⟨(escape text).toList, name⟩ := by
  refine ⟨?_, ?_, h⟩ <;> dsimp only
  · exact notMem_escape (.inl rfl) text
  · exact notMem_escape (.inr rfl) text

theorem isClean_tags {l : Listed} {tag : Tag} (h : tag ∈ tags l) : tag.IsClean := by
  simp only [tags, List.mem_cons, List.not_mem_nil, or_false] at h
  rcases h with rfl | rfl | rfl | rfl | rfl | rfl | rfl | rfl
  · constructor <;> decide
  · constructor <;> decide
  · exact isClean_field l.name (by decide)
  · constructor <;> decide
  · exact isClean_field l.description (by decide)
  · constructor <;> decide
  · exact isClean_field l.location (by decide)
  · constructor <;> decide

theorem isClean_blockTags {ls : List Listed} {tag : Tag} (h : tag ∈ blockTags ls) :
    tag.IsClean := by
  cases ls with
  | nil => cases h
  | cons l ls =>
    simp only [blockTags, List.cons_append, List.mem_cons, List.mem_append, List.mem_flatMap,
      List.not_mem_nil, or_false] at h
    rcases h with rfl | ⟨l, -, htag⟩ | rfl
    · constructor <;> decide
    · exact isClean_tags htag
    · constructor <;> decide

/-- The lines for a skill are its tags, but that they end with a line break and do not start with
one. -/
theorem toList_renderOne (s : Skill) :
    '\n' :: (renderOne s).toList = writeTags (tags s.listed) ++ ['\n'] := by
  unfold renderOne tags writeTags
  simp only [listed, String.toList_append, String.reduceToList, List.flatMap_cons,
    List.flatMap_nil, List.append_assoc, List.cons_append, List.nil_append]

theorem toList_renderOnes (skills : List Skill) :
    '\n' :: (String.join (skills.map renderOne)).toList
      = writeTags ((skills.map listed).flatMap tags) ++ ['\n'] := by
  induction skills with
  | nil => simp [writeTags]
  | cons s skills ih =>
    rw [List.map_cons, String.join_cons, String.toList_append, List.map_cons, List.flatMap_cons,
      ← List.cons_append, toList_renderOne, List.append_assoc, List.singleton_append, ih]
    simp [writeTags]

theorem toList_renderAll (skills : List Skill) :
    (renderAll skills).toList = writeTags (blockTags (skills.map listed)) := by
  cases skills with
  | nil => rfl
  | cons s skills =>
    have hlines := toList_renderOnes (s :: skills)
    rw [renderAll, if_neg (by simp), String.toList_append, String.toList_append]
    calc "<available_skills>\n".toList ++ (String.join ((s :: skills).map renderOne)).toList
          ++ "</available_skills>".toList
        = "<available_skills>".toList ++ ('\n' :: (String.join ((s :: skills).map
          renderOne)).toList) ++ "</available_skills>".toList := by
          simp only [String.reduceToList, List.cons_append, List.nil_append]
      _ = writeTags (blockTags ((s :: skills).map listed)) := by
          rw [hlines, List.map_cons, blockTags, writeTags]
          simp only [writeTags, String.reduceToList, List.flatMap_cons, List.flatMap_append,
            List.flatMap_nil, List.cons_append, List.nil_append, List.append_assoc]

theorem tagsOf_renderAll (skills : List Skill) :
    tagsOf (renderAll skills).toList = blockTags (skills.map listed) := by
  rw [toList_renderAll, tagsOf_writeTags fun _ => isClean_blockTags]

theorem names_blockTags (ls : List Listed) :
    (blockTags ls).map (fun tag => String.ofList tag.name) = tagNames ls.length := by
  have hnames : ∀ ls : List Listed, (ls.flatMap tags).map (fun tag => String.ofList tag.name)
      = (List.replicate ls.length tagNamesOfOne).flatten := by
    intro ls
    induction ls with
    | nil => rfl
    | cons l ls ih =>
      rw [List.flatMap_cons, List.map_append, ih]
      rfl
  cases ls with
  | nil => rfl
  | cons l ls =>
    rw [blockTags, List.map_append, List.map_cons, hnames]
    rfl

theorem ofList_unescapeChars_escape (text : String) :
    String.ofList (unescapeChars (escape text).toList) = text := by
  rw [escape, String.toList_ofList, unescapeChars_flatMap, String.ofList_toList]

section ClosedBy

variable {name : String} {field : Listed → String}

theorem closedBy_append (front back : List Tag) :
    closedBy name (front ++ back) = closedBy name front ++ closedBy name back := by
  rw [closedBy, List.filter_append, List.map_append]
  rfl

theorem closedBy_cons_of_ne {tag : Tag} (h : tag.name ≠ name.toList) (tags : List Tag) :
    closedBy name (tag :: tags) = closedBy name tags := by
  rw [closedBy, List.filter_cons_of_neg (by simpa using h)]
  rfl

/-- A tag that closes one field of each skill closes nothing else. -/
theorem closedBy_blockTags (hfield : ∀ l, closedBy name (tags l) = [field l])
    (houter : "available_skills" ≠ name ∧ "/available_skills" ≠ name) (ls : List Listed) :
    closedBy name (blockTags ls) = ls.map field := by
  have hfields : ∀ ls : List Listed, closedBy name (ls.flatMap tags) = ls.map field := by
    intro ls
    induction ls with
    | nil => rfl
    | cons l ls ih =>
      rw [List.flatMap_cons, closedBy_append, hfield, ih]
      rfl
  cases ls with
  | nil => rfl
  | cons l ls =>
    rw [blockTags, closedBy_append, closedBy_cons_of_ne (mt String.toList_inj.mp houter.1), hfields,
      closedBy_cons_of_ne (mt String.toList_inj.mp houter.2)]
    exact List.append_nil _

end ClosedBy

/-- Each field of a skill is closed by a tag of its own. -/
theorem closedBy_tags (l : Listed) : closedBy "/name" (tags l) = [l.name]
    ∧ closedBy "/description" (tags l) = [l.description]
    ∧ closedBy "/location" (tags l) = [l.location] := by
  refine ⟨?_, ?_, ?_⟩ <;> simp [closedBy, tags, ofList_unescapeChars_escape]

theorem readAll_renderAll (skills : List Skill) :
    readAll (renderAll skills) = skills.map listed := by
  have hzip : ∀ ls : List Listed, List.zipWith3 Listed.mk (ls.map Listed.name)
      (ls.map Listed.description) (ls.map Listed.location) = ls := by
    intro ls
    induction ls with
    | nil => rfl
    | cons l ls ih => exact congrArg (l :: ·) ih
  rw [readAll, tagsOf_renderAll,
    closedBy_blockTags (fun l => (closedBy_tags l).1) (by decide),
    closedBy_blockTags (fun l => (closedBy_tags l).2.1) (by decide),
    closedBy_blockTags (fun l => (closedBy_tags l).2.2) (by decide), hzip]

/-- A block is read back into what it says about each skill, in order. So blocks of skills are the
same only if they say the same about the same skills, and whatever the fields hold, the tags are
those that so many skills bring along. -/
theorem renderAll_readable :
    (∀ skills, readAll (renderAll skills) = skills.map listed)
      ∧ (∀ skills others,
        renderAll skills = renderAll others ↔ skills.map listed = others.map listed)
      ∧ ∀ skills, (tagsOf (renderAll skills).toList).map (fun tag => String.ofList tag.name)
        = tagNames skills.length := by
  refine ⟨readAll_renderAll, fun skills others => ⟨fun h => ?_, fun h => ?_⟩, fun skills => ?_⟩
  · rw [← readAll_renderAll, h, readAll_renderAll]
  · rw [← String.toList_inj, toList_renderAll, h, toList_renderAll]
  · rw [tagsOf_renderAll, names_blockTags, List.length_map]

end Briefing.Skill

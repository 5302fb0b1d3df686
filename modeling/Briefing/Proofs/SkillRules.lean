import Briefing.Skill
import Briefing.Text.Search
import Mathlib.Computability.RegularExpressions

/-!
# Which documents are skills

A name is made of words with single hyphens between them. That is what an expression for it says
(`isName_iff_matches`), and it is the same as not to start or end with a hyphen and to have no two
of them in a row (`matches_iff_isHyphenated`). With the limits on what the other fields say this
tells which documents are skills, and a skill says what the fields of its document say
(`ofDocument_accepts`).
-/

namespace Briefing.Skill

open FrontMatter (string?)

/-- A text of lower-case letters, digits and hyphens, none of which starts it, ends it or follows
another one. -/
structure IsHyphenated (name : List Char) : Prop where
  ne_nil : name ≠ []
  chars : ∀ c ∈ name, ('a' ≤ c ∧ c ≤ 'z') ∨ ('0' ≤ c ∧ c ≤ '9') ∨ c = '-'
  starts : name.head? ≠ some '-'
  ends : name.getLast? ≠ some '-'
  apart : ¬['-', '-'] <:+: name

/-- A document that says what a skill has to say. -/
structure IsSkillDocument (d : Document) : Prop where
  name : ∃ name, string? d.frontMatter "name" = some name ∧ IsHyphenated (Text.trim name).toList
    ∧ (Text.trim name).length ≤ 64
    ∧ d.path.parent?.bind Path.fileName? = some (Text.trim name)
  description : ∃ description, string? d.frontMatter "description" = some description
    ∧ 1 ≤ (Text.trim description).length ∧ (Text.trim description).length ≤ 1024
  compatibility : ∀ text, string? d.frontMatter "compatibility" = some text →
    (Text.trim text).length ≤ 500

/-- A skill that says what the fields of a document say, trimmed. -/
structure IsOf (d : Document) (s : Skill) : Prop where
  name : (string? d.frontMatter "name").map Text.trim = some s.name
  description : (string? d.frontMatter "description").map Text.trim = some s.description
  compatibility : s.compatibility
    = ((string? d.frontMatter "compatibility").map Text.trim).filter (· ≠ "")
  path : s.path = d.path
  frontMatter : s.frontMatter = d.frontMatter

/-! ## Names -/

/-- A word of a name. -/
def IsWord (word : List Char) : Prop := word ≠ [] ∧ ∀ c ∈ word, isNameChar c = true

theorem isNameChar_iff {c : Char} :
    isNameChar c = true ↔ ('a' ≤ c ∧ c ≤ 'z') ∨ ('0' ≤ c ∧ c ≤ '9') := by
  have hlower : c.isLower = (decide ('a' ≤ c) && decide (c ≤ 'z')) := rfl
  have hdigit : c.isDigit = (decide ('0' ≤ c) && decide (c ≤ '9')) := rfl
  simp only [isNameChar, hlower, hdigit, Bool.or_eq_true, Bool.and_eq_true, decide_eq_true_eq]

theorem isNameChar_hyphen : isNameChar '-' = false := rfl

theorem IsWord.hyphen {word : List Char} (h : IsWord word) : '-' ∉ word := by
  intro hmem
  have hchar := h.2 _ hmem
  rw [isNameChar_hyphen] at hchar
  cases hchar

/-- A text without hyphens is a name if it is a word. -/
theorem isHyphenated_of_notMem {word : List Char} (h : '-' ∉ word) :
    IsHyphenated word ↔ IsWord word := by
  constructor
  · intro hname
    refine ⟨hname.ne_nil, fun c hc => isNameChar_iff.mpr ?_⟩
    rcases hname.chars c hc with hlower | hdigit | rfl
    · exact .inl hlower
    · exact .inr hdigit
    · exact absurd hc h
  · intro hword
    exact
      { ne_nil := hword.1
        chars := fun c hc => (isNameChar_iff.mp (hword.2 c hc)).imp_right .inl
        starts := fun hhead => h (List.mem_of_head? hhead)
        ends := fun hlast => h (List.mem_of_getLast? hlast)
        apart := fun hpart => h (hpart.subset List.mem_cons_self) }

/-- A text with a hyphen is a name if what stands before its first hyphen is a word and what stands
behind that hyphen is a name. -/
theorem isHyphenated_append {word rest : List Char} (h : '-' ∉ word) :
    IsHyphenated (word ++ '-' :: rest) ↔ IsWord word ∧ IsHyphenated rest := by
  constructor
  · intro hname
    have hchars : ∀ c ∈ word, isNameChar c = true := by
      intro c hc
      rcases hname.chars c (List.mem_append_left _ hc) with hlower | hdigit | rfl
      · exact isNameChar_iff.mpr (.inl hlower)
      · exact isNameChar_iff.mpr (.inr hdigit)
      · exact absurd hc h
    have hword : word ≠ [] := by
      rintro rfl
      exact hname.starts rfl
    refine ⟨⟨hword, hchars⟩, ?_⟩
    have hrest : rest ≠ [] := by
      rintro rfl
      exact hname.ends List.getLast?_concat
    refine ⟨hrest, fun c hc => hname.chars c (by simp [hc]), fun hhead => ?_, fun hlast => ?_,
      fun hpart => ?_⟩
    · obtain ⟨rest, rfl⟩ := List.head?_eq_some_iff.mp hhead
      exact hname.apart ⟨word, rest, by simp⟩
    · refine hname.ends ?_
      rw [List.getLast?_append_of_ne_nil _ (by simp), List.getLast?_cons_of_ne_nil hrest, hlast]
    · exact hname.apart (hpart.trans ⟨word ++ ['-'], [], by simp⟩)
  · rintro ⟨hword, hrest⟩
    have hstart : ∀ back, rest ≠ '-' :: back := by
      rintro back rfl
      exact hrest.starts rfl
    refine ⟨by simp, fun c hc => ?_, fun hhead => ?_, fun hlast => ?_, ?_⟩
    · rcases List.mem_append.mp hc with hc | hc
      · exact (isNameChar_iff.mp (hword.2 c hc)).imp_right .inl
      · rcases List.mem_cons.mp hc with rfl | hc
        · exact .inr (.inr rfl)
        · exact hrest.chars c hc
    · rw [List.head?_append_of_ne_nil _ hword.1] at hhead
      exact h (List.mem_of_head? hhead)
    · rw [List.getLast?_append_of_ne_nil _ (by simp),
        List.getLast?_cons_of_ne_nil hrest.ne_nil] at hlast
      exact hrest.ends hlast
    · rintro ⟨front, back, heq⟩
      rw [List.append_assoc] at heq
      rcases List.append_eq_append_iff.mp heq with ⟨_ | ⟨c, gap⟩, hfront, hback⟩ | ⟨gap, -, hback⟩
      · exact hstart back (List.cons.inj hback).2.symm
      · obtain ⟨rfl, -⟩ := List.cons.inj hback
        exact h (hfront ▸ by simp)
      · rcases gap with _ | ⟨c, gap⟩
        · exact hstart back (List.cons.inj hback).2
        · exact hrest.apart ⟨gap, back, by rw [(List.cons.inj hback).2]; simp⟩

/-- A text is a name if it is made of words with single hyphens between them. -/
theorem isHyphenated_iff (name : List Char) :
    IsHyphenated name ↔ ∀ word ∈ name.splitOn '-', IsWord word := by
  induction name using Text.cut_induction (c := '-') with
  | last word h =>
    rw [List.splitOn_eq_singleton h, List.forall_mem_singleton, isHyphenated_of_notMem h]
  | cut word rest h ih =>
    rw [Text.splitOn_cut h, List.forall_mem_cons, isHyphenated_append h, ih]

/-- The characters from one to another. -/
def charsBetween (first last : Char) : List Char :=
  ((List.range (last.toNat + 1)).map Char.ofNat).filter fun c => first ≤ c && c ≤ last

/-- One of some characters. -/
def oneOf : List Char → RegularExpression Char
  | [] => 0
  | c :: cs => .char c + oneOf cs

/-- The expression `[a-z0-9]+` for a word. -/
def wordShape : RegularExpression Char :=
  let letter := oneOf (charsBetween 'a' 'z' ++ charsBetween '0' '9')
  letter * letter.star

/-- The expression `[a-z0-9]+(-[a-z0-9]+)*` for a name. -/
def nameShape : RegularExpression Char := wordShape * (.char '-' * wordShape).star

theorem mem_charsBetween {first last c : Char} :
    c ∈ charsBetween first last ↔ first ≤ c ∧ c ≤ last := by
  rw [charsBetween, List.mem_filter, Bool.and_eq_true, decide_eq_true_iff, decide_eq_true_iff,
    and_iff_right_iff_imp]
  intro h
  exact List.mem_map.mpr ⟨c.toNat, List.mem_range.mpr (Nat.lt_succ_of_le h.2), Char.ofNat_toNat c⟩

theorem mem_oneOf {chars s : List Char} : s ∈ (oneOf chars).matches' ↔ ∃ c ∈ chars, s = [c] := by
  induction chars with
  | nil => simp [oneOf, Language.notMem_zero]
  | cons c chars ih =>
    rw [oneOf, RegularExpression.matches'_add, Language.mem_add, ih,
      RegularExpression.matches'_char, List.exists_mem_cons_iff]
    rfl

theorem mem_letters {s : List Char} :
    s ∈ (oneOf (charsBetween 'a' 'z' ++ charsBetween '0' '9')).matches' ↔
      ∃ c, isNameChar c = true ∧ s = [c] := by
  simp only [mem_oneOf, List.mem_append, mem_charsBetween, isNameChar_iff]

theorem mem_wordShape {s : List Char} : s ∈ wordShape.matches' ↔ IsWord s := by
  rw [wordShape, RegularExpression.matches'_mul, RegularExpression.matches'_star, Language.mem_mul]
  constructor
  · rintro ⟨_, hfirst, _, hrest, rfl⟩
    obtain ⟨c, hc, rfl⟩ := mem_letters.mp hfirst
    obtain ⟨letters, rfl, hletters⟩ := Language.mem_kstar.mp hrest
    refine ⟨by simp, List.forall_mem_cons.mpr ⟨hc, fun d hd => ?_⟩⟩
    obtain ⟨letter, hletter, hd⟩ := List.mem_flatten.mp hd
    obtain ⟨e, he, rfl⟩ := mem_letters.mp (hletters letter hletter)
    rwa [List.mem_singleton.mp hd]
  · rintro ⟨hne, hchars⟩
    obtain ⟨c, rest, rfl⟩ := List.exists_cons_of_ne_nil hne
    obtain ⟨hc, hrest⟩ := List.forall_mem_cons.mp hchars
    have hflatten : rest = (rest.map fun c => [c]).flatten := by
      rw [← List.flatMap_def, List.flatMap_singleton']
    refine ⟨[c], mem_letters.mpr ⟨c, hc, rfl⟩, rest,
      Language.mem_kstar.mpr ⟨_, hflatten, fun letter hletter => ?_⟩, rfl⟩
    obtain ⟨d, hd, rfl⟩ := List.mem_map.mp hletter
    exact mem_letters.mpr ⟨d, hrest d hd, rfl⟩

theorem splitOn_words {word : List Char} (hword : IsWord word) {words : List (List Char)}
    (hwords : ∀ w ∈ words, IsWord w) :
    (word ++ words.flatMap ('-' :: ·)).splitOn '-' = word :: words := by
  induction words generalizing word with
  | nil => rw [List.flatMap_nil, List.append_nil, List.splitOn_eq_singleton hword.hyphen]
  | cons w words ih =>
    obtain ⟨hw, hwords⟩ := List.forall_mem_cons.mp hwords
    rw [List.flatMap_cons, List.cons_append, Text.splitOn_cut hword.hyphen, ih hw hwords]

theorem append_flatMap_hyphen (word : List Char) (words : List (List Char)) :
    word ++ words.flatMap ('-' :: ·) = ['-'].intercalate (word :: words) := by
  induction words generalizing word with
  | nil => simp
  | cons w words ih =>
    rw [List.intercalate_cons_cons, ← ih, List.flatMap_cons]
    simp

/-- What follows the first word of a name: words, each behind a hyphen. -/
theorem mem_star_wordShape {s : List Char} :
    s ∈ (RegularExpression.char '-' * wordShape).star.matches' ↔
      ∃ words : List (List Char), (∀ w ∈ words, IsWord w) ∧ s = words.flatMap ('-' :: ·) := by
  have hone : ∀ {t}, t ∈ (RegularExpression.char '-' * wordShape).matches' ↔
      ∃ word, IsWord word ∧ t = '-' :: word := by
    intro t
    rw [RegularExpression.matches'_mul, RegularExpression.matches'_char, Language.mem_mul]
    constructor
    · rintro ⟨_, rfl, word, hword, rfl⟩
      exact ⟨word, mem_wordShape.mp hword, rfl⟩
    · rintro ⟨word, hword, rfl⟩
      exact ⟨['-'], rfl, word, mem_wordShape.mpr hword, rfl⟩
  rw [RegularExpression.matches'_star, Language.mem_kstar]
  constructor
  · rintro ⟨parts, rfl, hparts⟩
    induction parts with
    | nil => exact ⟨[], by simp, rfl⟩
    | cons part parts ih =>
      obtain ⟨hpart, hrest⟩ := List.forall_mem_cons.mp hparts
      obtain ⟨word, hword, rfl⟩ := hone.mp hpart
      obtain ⟨words, hwords, hflatten⟩ := ih hrest
      refine ⟨word :: words, List.forall_mem_cons.mpr ⟨hword, hwords⟩, ?_⟩
      rw [List.flatten_cons, hflatten, List.flatMap_cons]
  · rintro ⟨words, hwords, rfl⟩
    refine ⟨words.map ('-' :: ·), List.flatMap_def .., fun part hpart => ?_⟩
    obtain ⟨word, hword, rfl⟩ := List.mem_map.mp hpart
    exact hone.mpr ⟨word, hwords word hword, rfl⟩

theorem mem_nameShape {s : List Char} :
    s ∈ nameShape.matches' ↔ ∀ word ∈ s.splitOn '-', IsWord word := by
  rw [nameShape, RegularExpression.matches'_mul, Language.mem_mul]
  constructor
  · rintro ⟨word, hword, _, hrest, rfl⟩
    obtain ⟨words, hwords, rfl⟩ := mem_star_wordShape.mp hrest
    have hword := mem_wordShape.mp hword
    rw [splitOn_words hword hwords]
    exact List.forall_mem_cons.mpr ⟨hword, hwords⟩
  · intro hwords
    obtain ⟨word, words, hsplit⟩ := List.exists_cons_of_ne_nil (List.splitOn_ne_nil '-' s)
    rw [hsplit, List.forall_mem_cons] at hwords
    refine ⟨word, mem_wordShape.mpr hwords.1, _, mem_star_wordShape.mpr ⟨words, hwords.2, rfl⟩, ?_⟩
    rw [append_flatMap_hyphen, ← hsplit, List.intercalate_splitOn]

/-- The expression for a name says where hyphens may stand. -/
theorem matches_iff_isHyphenated {s : List Char} : s ∈ nameShape.matches' ↔ IsHyphenated s := by
  rw [mem_nameShape, isHyphenated_iff]

theorem utf8ByteSize_ofList {s : List Char} (h : ∀ c ∈ s, c.utf8Size = 1) :
    (String.ofList s).utf8ByteSize = s.length := by
  induction s with
  | nil => rfl
  | cons c s ih =>
    obtain ⟨hc, hs⟩ := List.forall_mem_cons.mp h
    rw [← List.singleton_append, String.ofList_append, String.utf8ByteSize_append,
      ← String.singleton_eq_ofList, String.utf8ByteSize_singleton, hc, ih hs, List.length_append]
    rfl

/-- Each character of a name has one byte. -/
theorem IsHyphenated.utf8ByteSize_eq {name : String} (h : IsHyphenated name.toList) :
    name.utf8ByteSize = name.length := by
  have hsize : ∀ c ∈ name.toList, c.utf8Size = 1 := by
    intro c hc
    rw [Char.utf8Size_eq_one_iff]
    rcases h.chars c hc with ⟨-, hle⟩ | ⟨-, hle⟩ | rfl
    · exact UInt32.le_trans hle (by decide)
    · exact UInt32.le_trans hle (by decide)
    · decide
  rw [← String.ofList_toList (s := name), utf8ByteSize_ofList hsize, String.length_ofList]

/-- A name is what the expression for it says, and has at most so many bytes. -/
theorem isName_iff_matches {name : String} :
    isName name = true ↔ name.utf8ByteSize ≤ nameLimit ∧ name.toList ∈ nameShape.matches' := by
  have hwords : ((name.toList.splitOn '-').all fun word => !word.isEmpty && word.all isNameChar)
      = true ↔ name.toList ∈ nameShape.matches' := by
    rw [mem_nameShape, List.all_eq_true]
    simp [IsWord]
  rw [isName, Bool.and_eq_true, hwords, decide_eq_true_iff, and_congr_left_iff]
  intro hmatches
  rw [(matches_iff_isHyphenated.mp hmatches).utf8ByteSize_eq]

theorem isName_iff {name : String} :
    isName name = true ↔ IsHyphenated name.toList ∧ name.length ≤ 64 := by
  rw [isName_iff_matches, matches_iff_isHyphenated, and_comm, and_congr_right_iff]
  intro h
  rw [h.utf8ByteSize_eq]
  rfl

/-! ## Fields -/

section Fields

variable {d : Document}

theorem trimmed_eq (key : String) :
    trimmed d key = ((string? d.frontMatter key).map Text.trim).getD "" := by
  rw [trimmed]
  rcases string? d.frontMatter key with _ | text
  · rfl
  · rfl

/-- Where a trimmed field is not empty it is there. -/
theorem trimmed_eq_iff {key text : String} (h : text ≠ "") :
    trimmed d key = text ↔ (string? d.frontMatter key).map Text.trim = some text := by
  rw [trimmed_eq]
  rcases (string? d.frontMatter key).map Text.trim with _ | found
  · simp [h.symm]
  · simp

theorem directoryName_eq_iff {path : Path} {name : String} (h : name ≠ "") :
    directoryName path = name ↔ path.parent?.bind Path.fileName? = some name := by
  rw [directoryName]
  rcases path.parent?.bind Path.fileName? with _ | found
  · simp [h.symm]
  · simp

/-- What is checked of the trimmed fields of a document. -/
structure IsChecked (d : Document) : Prop where
  name : isName (trimmed d "name") = true
  directory : trimmed d "name" = directoryName d.path
  description : 1 ≤ (trimmed d "description").length
    ∧ (trimmed d "description").length ≤ descriptionLimit
  compatibility : (trimmed d "compatibility").length ≤ compatibilityLimit

/-- The skill that the trimmed fields of a document make. -/
def ofFields (d : Document) : Skill where
  name := trimmed d "name"
  description := trimmed d "description"
  compatibility :=
    if (trimmed d "compatibility").isEmpty then none else some (trimmed d "compatibility")
  path := d.path
  frontMatter := d.frontMatter

theorem ofDocument_eq_ok {s : Skill} :
    ofDocument d = .ok s ↔ IsChecked d ∧ ofFields d = s := by
  have hdescription : ∀ text : String, (text.isEmpty || decide (descriptionLimit < text.length))
      = true ↔ ¬(1 ≤ text.length ∧ text.length ≤ descriptionLimit) := by
    intro text
    rw [Bool.or_eq_true, decide_eq_true_iff, String.isEmpty_iff, ← String.length_eq_zero_iff]
    omega
  rw [ofDocument]
  simp only [hdescription]
  split
  · rename_i hname
    exact iff_of_false (by simp) fun h => by simp [h.1.name] at hname
  · rename_i hname
    split
    · rename_i hdirectory
      exact iff_of_false (by simp) fun h => hdirectory h.1.directory
    · rename_i hdirectory
      split
      · rename_i hdescription
        exact iff_of_false (by simp) fun h => hdescription h.1.description
      · rename_i hdescription
        split
        · rename_i hcompatibility
          exact iff_of_false (by simp) fun h => absurd h.1.compatibility (by omega)
        · rename_i hcompatibility
          have hchecked : IsChecked d := ⟨by simpa using hname, not_not.mp hdirectory,
            not_not.mp hdescription, not_lt.mp hcompatibility⟩
          exact ⟨fun h => ⟨hchecked, Except.ok.inj h⟩, fun h => congrArg Except.ok h.2⟩

theorem trimmed_of_eq_some {key text : String} (h : string? d.frontMatter key = some text) :
    trimmed d key = Text.trim text := by
  rw [trimmed_eq, h]
  rfl

/-- What is checked is what a skill has to say. -/
theorem isChecked_iff : IsChecked d ↔ IsSkillDocument d := by
  constructor
  · intro h
    obtain ⟨hhyphenated, hlength⟩ := isName_iff.mp h.name
    have hname : trimmed d "name" ≠ "" := fun hempty => hhyphenated.ne_nil (by rw [hempty]; rfl)
    have hdescription : trimmed d "description" ≠ "" := by
      intro hempty
      simpa [hempty] using h.description.1
    obtain ⟨name, hfield, htrim⟩ := Option.map_eq_some_iff.mp ((trimmed_eq_iff hname).mp rfl)
    obtain ⟨description, hfield', htrim'⟩ :=
      Option.map_eq_some_iff.mp ((trimmed_eq_iff hdescription).mp rfl)
    refine ⟨⟨name, hfield, ?_⟩, ⟨description, hfield', ?_⟩, fun text htext => ?_⟩
    · rw [htrim]
      exact ⟨hhyphenated, hlength, (directoryName_eq_iff hname).mp h.directory.symm⟩
    · rw [htrim']
      exact h.description
    · rw [← trimmed_of_eq_some htext]
      exact h.compatibility
  · rintro ⟨⟨name, hname, hhyphenated, hlength, hdirectory⟩, ⟨description, hdescription, hlimits⟩,
      hcompatibility⟩
    have hne : Text.trim name ≠ "" := fun hempty => hhyphenated.ne_nil (by rw [hempty]; rfl)
    refine ⟨?_, ?_, ?_, ?_⟩
    · rw [trimmed_of_eq_some hname]
      exact isName_iff.mpr ⟨hhyphenated, hlength⟩
    · rw [trimmed_of_eq_some hname]
      exact ((directoryName_eq_iff hne).mpr hdirectory).symm
    · rw [trimmed_of_eq_some hdescription]
      exact hlimits
    · rcases htext : string? d.frontMatter "compatibility" with _ | text
      · rw [trimmed_eq, htext]
        exact Nat.zero_le _
      · rw [trimmed_of_eq_some htext]
        exact hcompatibility text htext

theorem isOf_ofFields (h : IsSkillDocument d) : IsOf d (ofFields d) := by
  obtain ⟨⟨name, hname, -⟩, ⟨description, hdescription, -⟩, -⟩ := h
  refine ⟨?_, ?_, ?_, rfl, rfl⟩
  · rw [ofFields, trimmed_of_eq_some hname, hname]
    rfl
  · rw [ofFields, trimmed_of_eq_some hdescription, hdescription]
    rfl
  · simp only [ofFields, trimmed_eq]
    rcases (string? d.frontMatter "compatibility").map Text.trim with _ | text
    · rfl
    · by_cases hempty : text = ""
      · simp [hempty, Option.filter]
      · simp [hempty, Option.filter]

end Fields

/-- A document is a skill if and only if it says what it has to, and the skill says just this. -/
theorem ofDocument_accepts (d : Document) :
    ((∃ s, ofDocument d = .ok s) ↔ IsSkillDocument d)
      ∧ ∀ s, ofDocument d = .ok s → IsOf d s := by
  simp only [ofDocument_eq_ok, isChecked_iff]
  refine ⟨⟨fun ⟨_, h, _⟩ => h, fun h => ⟨_, h, rfl⟩⟩, ?_⟩
  rintro _ ⟨h, rfl⟩
  exact isOf_ofFields h

/-- A document with blanks around what it says, and with a note on compatibility that is blank. -/
def paddedDocument : Document where
  path := "/skills/pdf-2/SKILL.md"
  frontMatter := Table.ofList [("name", .string " pdf-2"),
    ("description", .string "Work with PDFs\n"), ("compatibility", .string "  ")]
  content := "Body\n"

theorem ofDocument_accepts_padded : ∃ s, ofDocument paddedDocument = .ok s
    ∧ s.name = "pdf-2" ∧ s.description = "Work with PDFs" ∧ s.compatibility = none := by
  obtain ⟨haccepts, hof⟩ := ofDocument_accepts paddedDocument
  have hok : (ofDocument paddedDocument).toOption.isSome = true := by decide +kernel
  rcases hs : ofDocument paddedDocument with fault | s
  · rw [hs] at hok
    cases hok
  · have h := hof s hs
    refine ⟨s, rfl, ?_, ?_, ?_⟩
    · exact Option.some.inj (h.name.symm.trans (by decide +kernel))
    · exact Option.some.inj (h.description.symm.trans (by decide +kernel))
    · exact h.compatibility.trans (by decide +kernel)

end Briefing.Skill

import Briefing.Proofs.Segmentation
import Mathlib.Data.List.DropRight

/-!
# Writing a reference

A path is written in a reference with a backslash before each blank. What is written is found again
as a whole, whatever backslashes and marks are in it (`pathStart_escapeBlanks`), and is read as the
path it was written for (`unescapeBlanks_escapeBlanks`): a backslash of the path stands before
another character than a blank, as each blank has a backslash of its own.
-/

namespace Briefing.Expansion

/-- A path as a reference has it: with a backslash before each blank. -/
def escapeBlanks (path : List Char) : List Char :=
  path.flatMap fun c => if c = ' ' then ['\\', ' '] else [c]

/-- A path that a reference can be written for. -/
structure IsOrdinaryPath (path : List Char) : Prop where
  starts : ∃ c ∈ path.head?, Text.isAlphabetic c = true ∨ c = '/' ∨ c = '.'
  /-- No white space but blanks. -/
  blank : ∀ c ∈ path, Text.isWhite c = true → c = ' '
  unmarked : ∀ c ∈ path, c ∉ "<>\"|*?`".toList
  ends : ∀ c ∈ path.getLast?, c ≠ '\\' ∧ c ∉ ".,;:!?)".toList

/-! ## What is written -/

theorem escapeBlanks_cons (c : Char) (path : List Char) :
    escapeBlanks (c :: path) = (if c = ' ' then ['\\', ' '] else [c]) ++ escapeBlanks path :=
  List.flatMap_cons

/-- No blank stands right behind a backslash of the path. -/
theorem head?_escapeBlanks (path : List Char) : (escapeBlanks path).head? ≠ some ' ' := by
  cases path with
  | nil => simp [escapeBlanks]
  | cons c path =>
    rw [escapeBlanks_cons]
    by_cases hc : c = ' ' <;> simp [hc]

theorem getLast?_escapeBlanks (path : List Char) :
    (escapeBlanks path).getLast? = path.getLast? := by
  rcases List.eq_nil_or_concat path with rfl | ⟨path, c, rfl⟩
  · rfl
  · rw [List.concat_eq_append, escapeBlanks, List.flatMap_append, List.getLast?_concat]
    by_cases hc : c = ' ' <;> simp [hc]

theorem escapeBlanks_eq_nil {path : List Char} : escapeBlanks path = [] ↔ path = [] := by
  rw [← List.getLast?_eq_none_iff, getLast?_escapeBlanks, List.getLast?_eq_none_iff]

theorem head?_escapeBlanks_append {path : List Char} (hne : path ≠ []) (rest : List Char) :
    (escapeBlanks path ++ rest).head? ≠ some ' ' := by
  rw [List.head?_append_of_ne_nil _ (mt escapeBlanks_eq_nil.mp hne)]
  exact head?_escapeBlanks path

theorem pathStart_cons {c : Char} {s : List Char} (h : c = '\\' → s.head? ≠ some ' ') :
    pathStart (c :: s) = if endsPath c then [] else c :: pathStart s := by
  rw [pathStart]
  rintro _ hc rfl
  exact h hc rfl

theorem unescapeBlanks_cons {c : Char} {s : List Char} (h : c = '\\' → s.head? ≠ some ' ') :
    unescapeBlanks (c :: s) = c :: unescapeBlanks s := by
  rw [unescapeBlanks]
  rintro _ hc rfl
  exact h hc rfl

/-- A written path is read as the path it was written for. -/
theorem unescapeBlanks_escapeBlanks (path : List Char) :
    unescapeBlanks (escapeBlanks path) = path := by
  induction path with
  | nil => rfl
  | cons c path ih =>
    rw [escapeBlanks_cons]
    by_cases hc : c = ' '
    · rw [if_pos hc, hc]
      exact congrArg (' ' :: ·) ih
    · rw [if_neg hc, List.singleton_append,
        unescapeBlanks_cons fun _ => head?_escapeBlanks path, ih]

/-- A written path is all that is found before a character that ends it. -/
theorem pathStart_escapeBlanks {path rest : List Char}
    (hpath : ∀ c ∈ path, c ≠ ' ' → endsPath c = false) (hlast : path.getLast? ≠ some '\\')
    (hrest : ∀ c ∈ rest.head?, endsPath c = true) :
    pathStart (escapeBlanks path ++ rest) = escapeBlanks path := by
  induction path with
  | nil =>
    rcases rest with _ | ⟨c, rest⟩
    · rfl
    · have hc := hrest c rfl
      rw [escapeBlanks, List.flatMap_nil, List.nil_append, pathStart_cons, if_pos hc]
      rintro rfl
      exact absurd hc (by decide)
  | cons c path ih =>
    have hpath' : ∀ c ∈ path, c ≠ ' ' → endsPath c = false :=
      fun d hd => hpath d (List.mem_cons_of_mem c hd)
    have hlast' : path.getLast? ≠ some '\\' := by
      rcases path with _ | ⟨d, path⟩
      · simp
      · rwa [List.getLast?_cons_cons] at hlast
    rw [escapeBlanks_cons, List.append_assoc]
    by_cases hc : c = ' '
    · rw [if_pos hc, List.cons_append, List.singleton_append, pathStart, ih hpath' hlast']
      rfl
    · have hnext : c = '\\' → (escapeBlanks path ++ rest).head? ≠ some ' ' := by
        rintro rfl
        refine head?_escapeBlanks_append ?_ rest
        rintro rfl
        exact hlast rfl
      rw [if_neg hc, List.singleton_append, pathStart_cons hnext,
        if_neg (by simp [hpath c List.mem_cons_self hc]), ih hpath' hlast']
      rfl

namespace IsOrdinaryPath

variable {path rest : List Char}

theorem endsPath_eq_false (h : IsOrdinaryPath path) : ∀ c ∈ path, c ≠ ' ' → endsPath c = false := by
  intro c hc hne
  have hwhite : Text.isWhite c = false := by
    by_contra hw
    exact hne (h.blank c hc (by simpa using hw))
  simpa [endsPath, hwhite] using h.unmarked c hc

/-- The path is written so that it is found as a whole. -/
theorem writtenPath_eq (h : IsOrdinaryPath path) (hrest : ∀ c ∈ rest.head?, c = ' ' ∨ c = '\n') :
    writtenPath (escapeBlanks path ++ rest) = escapeBlanks path := by
  have hends : ∀ c ∈ rest.head?, endsPath c = true := by
    intro c hc
    rcases hrest c hc with rfl | rfl <;> decide
  have hlast : path.getLast? ≠ some '\\' := fun hl => (h.ends _ hl).1 rfl
  rw [writtenPath, pathStart_escapeBlanks h.endsPath_eq_false hlast hends]
  refine List.rdropWhile_eq_self_iff.mpr fun hne => ?_
  have hend := List.getLast?_eq_some_getLast hne
  rw [getLast?_escapeBlanks] at hend
  simpa [isTrailing] using (h.ends _ hend).2

theorem reference?_eq (h : IsOrdinaryPath path) (hrest : ∀ c ∈ rest.head?, c = ' ' ∨ c = '\n') :
    reference? none (escapeBlanks path ++ rest)
      = some (.reference (escapeBlanks path), rest) := by
  have hwritten := h.writtenPath_eq hrest
  obtain ⟨c, hc, hstart⟩ := h.starts
  obtain ⟨path, rfl⟩ := List.head?_eq_some_iff.mp hc
  have hblank : c ≠ ' ' := by
    rintro rfl
    revert hstart
    decide
  have hne : escapeBlanks (c :: path) ≠ [] := by simp [escapeBlanks_eq_nil]
  have hhead : (escapeBlanks (c :: path) ++ rest).head? = some c := by
    simp [escapeBlanks_cons, hblank]
  have hstarts : startsPath c = true := by
    simpa [startsPath, or_assoc] using hstart
  simp [reference?, hwritten, hhead, hstarts, hne]

end IsOrdinaryPath

/-! ## What stands behind it -/

/-- A character that starts no placeholder. -/
def isPlain (c : Char) : Bool := c ≠ '$' && c ≠ '!' && c ≠ '@'

theorem segments_plain {text : List Char} (h : ∀ c ∈ text, isPlain c = true)
    (before : Option Char) : segments before text = text.map .char := by
  induction text generalizing before with
  | nil => rw [segments, List.map_nil]
  | cons c text ih =>
    have hc : placeholder? before c text = none := by
      have hplain := h c List.mem_cons_self
      simp only [isPlain, Bool.and_eq_true, decide_eq_true_eq, and_assoc] at hplain
      obtain ⟨hdollar, hmark, hat⟩ := hplain
      rw [placeholder?, if_neg hdollar, if_neg hmark, if_neg hat]
    rw [segments_cons_none hc, ih fun d hd => h d (List.mem_cons_of_mem c hd), List.map_cons]

theorem BecomeAll.chars {host : Host} {params : Params} {base : Path} {text : List Char}
    {values : List String} {s s' : Session}
    (h : BecomeAll host params base (text.map .char) s values s') :
    String.join values = String.ofList text ∧ s' = s := by
  induction text generalizing values s with
  | nil =>
    cases h
    exact ⟨rfl, rfl⟩
  | cons c text ih =>
    obtain _ | ⟨hc, htext⟩ := h
    cases hc
    obtain ⟨hvalues, rfl⟩ := ih htext
    refine ⟨?_, rfl⟩
    rw [String.join_cons, hvalues]
    exact String.ext (by simp)

/-- A reference that is written for an ordinary path comes to the block of the file at that path,
and what stands behind it is kept. -/
theorem expand_reference (host : Host) (params : Params) {path rest : List Char} {base : Path}
    {body : String} {s : Session} (hpath : IsOrdinaryPath path)
    (hrest : ∀ c ∈ rest.head?, c = ' ' ∨ c = '\n') (hplain : ∀ c ∈ rest, isPlain c = true)
    (hbody : s.disk.readText (base.join (String.ofList path)) = .ok body) :
    (expand host params base (String.ofList ('@' :: (escapeBlanks path ++ rest)))).run s
      = (.ok (fileBlock (String.ofList path) body ++ String.ofList rest), s) := by
  obtain ⟨values, s', hrun, hall⟩ := run_expandAfter host params base "" none
    ('@' :: (escapeBlanks path ++ rest)) s
  have hreference : placeholder? none '@' (escapeBlanks path ++ rest)
      = some (.reference (escapeBlanks path), rest) := by
    rw [← hpath.reference?_eq hrest]
    rfl
  rw [segments_cons_some hreference, segments_plain hplain] at hall
  obtain _ | ⟨hfile, hbehind⟩ := hall
  rw [expand, String.toList_ofList, hrun, String.empty_append, String.join_cons]
  cases hfile with
  | readable h =>
    rw [unescapeBlanks_escapeBlanks] at h ⊢
    obtain rfl := Except.ok.inj (hbody.symm.trans h)
    obtain ⟨hvalues, rfl⟩ := hbehind.chars
    rw [hvalues]
  | unreadable h =>
    rw [unescapeBlanks_escapeBlanks, hbody] at h
    cases h

/-- A disk with a file whose name has a backslash before a blank. -/
def oddNameDisk : Disk where
  entries := [(["w"], .directory 0o755), (["w", "é\\ (1)!b"], .file "N".toUTF8 0o644)]
  current := ["w"]

theorem expand_reference_odd_name :
    IsOrdinaryPath "é\\ (1)!b".toList
      ∧ oddNameDisk.readText (Path.join "/w" "é\\ (1)!b") = .ok "N"
      ∧ ∀ (host : Host) (params : Params),
        (expand host params "/w" "@é\\\\ (1)!b see").run ⟨oddNameDisk, [], []⟩
          = (.ok "\n\nFile: é\\ (1)!b\n```\nN\n```\n\n see", ⟨oddNameDisk, [], []⟩) := by
  have hpath : IsOrdinaryPath "é\\ (1)!b".toList :=
    ⟨⟨'é', rfl, by decide +kernel⟩, by simp [Text.isWhite, Text.inRanges, Text.whiteRanges],
      by simp, by simp⟩
  have hbody : oddNameDisk.readText (Path.join "/w" (String.ofList "é\\ (1)!b".toList))
      = .ok "N" := by decide +kernel
  have hrest : ∀ c ∈ " see".toList.head?, c = ' ' ∨ c = '\n' := by simp
  have hplain : ∀ c ∈ " see".toList, isPlain c = true := by simp [isPlain]
  have hcontent : String.ofList ('@' :: (escapeBlanks "é\\ (1)!b".toList ++ " see".toList))
      = "@é\\\\ (1)!b see" := by decide +kernel
  have hblock : fileBlock (String.ofList "é\\ (1)!b".toList) "N" ++ String.ofList " see".toList
      = "\n\nFile: é\\ (1)!b\n```\nN\n```\n\n see" := by decide +kernel
  refine ⟨hpath, by rwa [String.ofList_toList] at hbody, fun host params => ?_⟩
  have h := expand_reference host params hpath hrest hplain (s := ⟨oddNameDisk, [], []⟩) hbody
  rwa [hcontent, hblock] at h

end Briefing.Expansion

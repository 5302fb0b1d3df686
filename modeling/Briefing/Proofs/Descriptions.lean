import Briefing.Proofs.Listing

/-!
# What the list says about a task

The description of a task is a preview, which is not empty and has at most a hundred characters
(`length_of_preview?`). Where the frontmatter gives none it comes from the lines of the content that
are outside fences. These are left if the lines inside fences are deleted (`Unfenced`) and then the
fences (`outsideFences_of_unfenced`), so nothing inside a fence has a say in it
(`description_bounded`).
-/

namespace Briefing.TaskSummary

open Assembly (printCommand steadyHost taskDisk taskOptions)

/-- A line that opens or closes a fence. -/
def IsFence (line : List Char) : Prop := "```".toList <+: line

instance : DecidablePred IsFence := fun line => inferInstanceAs (Decidable ("```".toList <+: line))

/-- The second lines are the first ones without those inside fences. The lines that open and close
fences stay, and a fence that is not closed goes on to the end. -/
inductive Unfenced : List (List Char) → List (List Char) → Prop
  | nil : Unfenced [] []
  | line {line : List Char} {lines kept : List (List Char)} (h : ¬IsFence line)
      (hrest : Unfenced lines kept) : Unfenced (line :: lines) (line :: kept)
  | closed {opener closer : List Char} {inside lines kept : List (List Char)}
      (hopener : IsFence opener) (hinside : ∀ line ∈ inside, ¬IsFence line)
      (hcloser : IsFence closer) (hrest : Unfenced lines kept) :
      Unfenced (opener :: (inside ++ closer :: lines)) (opener :: closer :: kept)
  | unclosed {opener : List Char} {inside : List (List Char)} (hopener : IsFence opener)
      (hinside : ∀ line ∈ inside, ¬IsFence line) : Unfenced (opener :: inside) [opener]

/-- The trimmed lines of a document. -/
def trimmedLines (d : Document) : List (List Char) :=
  (Text.lines d.content.toList).map Text.trimChars

/-! ## Fences -/

theorem opensFence_iff {line : List Char} : opensFence line = true ↔ IsFence line :=
  List.isPrefixOf_iff_prefix

theorem opensFence_eq_false {line : List Char} (h : ¬IsFence line) : opensFence line = false :=
  Bool.eq_false_iff.mpr (mt opensFence_iff.mp h)

/-- The lines inside the fences of any text can be deleted. -/
theorem exists_unfenced (lines : List (List Char)) : ∃ kept, Unfenced lines kept := by
  -- by induction on the lines, also for those that go on inside a fence
  have hgoal : (∃ kept, Unfenced lines kept) ∧ ∀ opener inside, IsFence opener →
      (∀ line ∈ inside, ¬IsFence line) → ∃ kept, Unfenced (opener :: (inside ++ lines)) kept := by
    induction lines with
    | nil =>
      refine ⟨⟨_, .nil⟩, fun opener inside hopener hinside => ?_⟩
      rw [List.append_nil]
      exact ⟨_, .unclosed hopener hinside⟩
    | cons line lines ih =>
      obtain ⟨⟨kept, hkept⟩, hopen⟩ := ih
      by_cases hline : IsFence line
      · exact ⟨hopen line [] hline (by simp), fun opener inside hopener hinside =>
          ⟨_, .closed hopener hinside hline hkept⟩⟩
      · refine ⟨⟨_, .line hline hkept⟩, fun opener inside hopener hinside => ?_⟩
        rw [List.append_cons]
        exact hopen opener (inside ++ [line]) hopener
          (List.forall_mem_append.mpr ⟨hinside, by simpa using hline⟩)
  exact hgoal.1

theorem outsideFences_inside {inside : List (List Char)} (h : ∀ line ∈ inside, ¬IsFence line)
    (rest : List (List Char)) : outsideFences true (inside ++ rest) = outsideFences true rest := by
  induction inside with
  | nil => rfl
  | cons line inside ih =>
    obtain ⟨hline, hinside⟩ := List.forall_mem_cons.mp h
    rw [List.cons_append, outsideFences, opensFence_eq_false hline]
    exact ih hinside

theorem outsideFences_of_unfenced {lines kept : List (List Char)} (h : Unfenced lines kept) :
    outsideFences false lines = kept.filter (!opensFence ·) := by
  induction h with
  | nil => rfl
  | line h _ ih =>
    rw [outsideFences, List.filter_cons, opensFence_eq_false h, ih]
    rfl
  | closed hopener hinside hcloser _ ih =>
    rw [outsideFences, if_pos (opensFence_iff.mpr hopener), Bool.not_false,
      outsideFences_inside hinside, outsideFences, if_pos (opensFence_iff.mpr hcloser),
      Bool.not_true, ih]
    simp [opensFence_iff.mpr hopener, opensFence_iff.mpr hcloser]
  | unclosed hopener hinside =>
    have hend := outsideFences_inside hinside []
    rw [List.append_nil] at hend
    rw [outsideFences, if_pos (opensFence_iff.mpr hopener), Bool.not_false, hend]
    simp [outsideFences, opensFence_iff.mpr hopener]

/-! ## Previews -/

/-- A text that is too long is cut to the limit. -/
theorem length_preview (text : String) :
    (preview text).length = min text.length descriptionLimit := by
  rw [preview]
  split_ifs with h
  · rw [min_eq_left h]
  · rw [String.length_append, String.length_ofList, List.length_take, String.length_toList]
    have hdots : "...".length = 3 := rfl
    unfold descriptionLimit at h ⊢
    omega

theorem length_of_preview? {text shown : String} (h : preview? text = some shown) :
    1 ≤ shown.length ∧ shown.length ≤ 100 := by
  rw [preview?] at h
  split_ifs at h with hempty
  obtain rfl := Option.some.inj h
  have hpos : text.length ≠ 0 := by
    rw [String.isEmpty_iff, ← String.length_eq_zero_iff] at hempty
    exact hempty
  rw [length_preview, descriptionLimit]
  omega

theorem exists_preview?_of_describe (d : Document) : ∃ text, describe d = preview? text := by
  unfold describe
  split
  · exact ⟨_, rfl⟩
  · exact ⟨_, rfl⟩

/-! ## The list -/

/-- What the list says about a task is said about the document that is loaded from its file. -/
theorem exists_document_of_listIn {d : Disk} {table : AgentTable} {bases : List Base}
    {tasks : List TaskSummary} (h : listIn d table bases = .ok tasks) :
    ∀ task ∈ tasks, ∃ document, d.load task.path = .ok document ∧ task = ofDocument document := by
  obtain ⟨cs, document, -, hload, rfl⟩ := listIn_ok h
  refine List.forall_mem_map.mpr fun c hc => ⟨document c, ?_, rfl⟩
  have hpath : (ofDocument (document c)).path = c.path := Disk.load_path (hload c hc)
  rw [hpath, hload c hc]

/-- The list describes the documents of the disk that is searched. A description is not empty and
has at most a hundred characters. Any document can be rid of the lines inside fences, and the
descriptions of two documents whose frontmatter gives none are the same if they have the same lines
then. -/
theorem description_bounded :
    (∀ (host : Host) (options : Options) (s s' : Session) (tasks : List TaskSummary),
      (list host options).run s = (.ok tasks, s') →
        ∃ roots s₁, (options.searchRoots host).run s = (.ok roots, s₁) ∧ ∀ task ∈ tasks,
          ∃ document, s₁.disk.load task.path = .ok document
            ∧ task.description = describe document)
      ∧ (∀ (document : Document) (text : String), describe document = some text →
        1 ≤ text.length ∧ text.length ≤ 100)
      ∧ (∀ document : Document, ∃ kept, Unfenced (trimmedLines document) kept)
      ∧ ∀ (document document' : Document) (kept : List (List Char)),
        FrontMatter.string? document.frontMatter "description" = none →
          FrontMatter.string? document'.frontMatter "description" = none →
            Unfenced (trimmedLines document) kept → Unfenced (trimmedLines document') kept →
              describe document = describe document' := by
  refine ⟨fun host options s s' tasks h => ?_, fun document text h => ?_,
    fun document => exists_unfenced _, fun document document' kept hnone hnone' hkept hkept' => ?_⟩
  · obtain ⟨roots, s₁, hroots, hlist⟩ := exists_listIn_of_list h
    refine ⟨roots, s₁, hroots, fun task htask => ?_⟩
    obtain ⟨document, hload, rfl⟩ := exists_document_of_listIn hlist task htask
    exact ⟨document, hload, rfl⟩
  · obtain ⟨full, hfull⟩ := exists_preview?_of_describe document
    exact length_of_preview? (hfull.symm.trans h)
  · have hlines : outsideFences false (trimmedLines document)
        = outsideFences false (trimmedLines document') := by
      rw [outsideFences_of_unfenced hkept, outsideFences_of_unfenced hkept']
    rw [trimmedLines, trimmedLines] at hlines
    rw [describe, describe, hnone, hnone']
    simp only [hlines]

/-- A document with a fence within a paragraph, and with one that is not closed. -/
def fencedDocument (code rest : String) : Document where
  path := "t.md"
  frontMatter := ∅
  content := "Do\n```sh\n" ++ code ++ "\n  ```\nit\n````\n" ++ rest

/-- What is inside the fences of two documents differs, and they have the same description. -/
theorem description_bounded_fenced : ∃ tasks s',
    (list (steadyHost printCommand) taskOptions).run ⟨taskDisk "Do it\n", [], []⟩ = (.ok tasks, s')
      ∧ tasks.map TaskSummary.path = ["/w/.agents/tasks/t.md"]
      ∧ (∀ task ∈ tasks, ∃ document, (taskDisk "Do it\n").load task.path = .ok document
        ∧ task.description = describe document)
      ∧ describe (fencedDocument "ls" "# Not this") = describe (fencedDocument "# Nor this\n" "")
      ∧ describe (fencedDocument "ls" "# Not this") = some "Do it"
      ∧ 1 ≤ "Do it".length ∧ "Do it".length ≤ 100 := by
  obtain ⟨hlist, hlength, -, hsame⟩ := description_bounded
  have hdescribe : describe (fencedDocument "ls" "# Not this") = some "Do it" := by
    decide +kernel
  have hlines : trimmedLines (fencedDocument "ls" "# Not this") = ["Do".toList, "```sh".toList,
      "ls".toList, "```".toList, "it".toList, "````".toList, "# Not this".toList] := by
    decide +kernel
  have hlines' : trimmedLines (fencedDocument "# Nor this\n" "") = ["Do".toList, "```sh".toList,
      "# Nor this".toList, [], "```".toList, "it".toList, "````".toList] := by
    decide +kernel
  have hkept : Unfenced (trimmedLines (fencedDocument "ls" "# Not this"))
      ["Do".toList, "```sh".toList, "```".toList, "it".toList, "````".toList] := by
    rw [hlines]
    exact .line (by decide) (@Unfenced.closed _ _ ["ls".toList] _ _ (by decide) (by decide)
      (by decide) (.line (by decide) (.unclosed (by decide) (by decide))))
  have hkept' : Unfenced (trimmedLines (fencedDocument "# Nor this\n" ""))
      ["Do".toList, "```sh".toList, "```".toList, "it".toList, "````".toList] := by
    rw [hlines']
    exact .line (by decide) (@Unfenced.closed _ _ ["# Nor this".toList, []] _ _ (by decide)
      (by decide) (by decide) (.line (by decide) (.unclosed (by decide) (by decide))))
  obtain ⟨tasks, s', hrun, hpaths⟩ := Activity.exists_of_toOption (show
    ((list (steadyHost printCommand) taskOptions).run
      ⟨taskDisk "Do it\n", [], []⟩).1.toOption.map (·.map TaskSummary.path)
        = some [Path.mk "/w/.agents/tasks/t.md"] by decide +kernel)
  obtain ⟨roots, s₁, hroots, hdocuments⟩ := hlist _ _ _ _ _ hrun
  obtain ⟨rfl, rfl⟩ := Options.eq_of_searchRoots rfl rfl hroots
  exact ⟨tasks, s', hrun, hpaths, hdocuments, hsame _ _ _ rfl rfl hkept hkept', hdescribe,
    hlength _ _ hdescribe⟩

end Briefing.TaskSummary

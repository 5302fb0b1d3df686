import Briefing.Proofs.InlineText
import Briefing.Proofs.Runs

/-!
# Counts of tokens

A run counts the tokens of a document when it takes it up, and again when it puts another content
into it. So the count beside each rule and beside the task is that of what stands in the prompt
(`isCounted_assemble`), whether it was expanded or not.

In the prompt, each part but the task has a line break behind it. Every count is rounded down; what
is lost in a part, at most three characters, makes one token at most together with the break
(`estimateTokens_line`). So the count of the prompt is that of its parts, or more by at most one for
each break (`assemble_tokens`).
-/

namespace Briefing

namespace Activity

variable {α β : Type}

/-- An activity whose answers all have a property. -/
def AnswersOnly (p : α → Prop) (a : Activity α) : Prop := ∀ s x, (a.run s).1 = .ok x → p x

theorem answersOnly_true (a : Activity α) : a.AnswersOnly fun _ => True := fun _ _ _ => trivial

theorem answersOnly_pure {p : α → Prop} {x : α} (h : p x) :
    AnswersOnly p (pure x : Activity α) := by
  rintro s y ⟨⟩
  exact h

theorem AnswersOnly.bind {p : α → Prop} {q : β → Prop} {a : Activity α} {f : α → Activity β}
    (h : a.AnswersOnly p) (hf : ∀ x, p x → (f x).AnswersOnly q) : (a >>= f).AnswersOnly q := by
  intro s y hy
  obtain ⟨x, s', hrun, hy⟩ := exists_of_bind_ok hy
  exact hf x (h s x (by rw [hrun])) s' y hy

theorem answersOnly_ite {p : α → Prop} {c : Prop} [Decidable c] {a b : Activity α}
    (ha : a.AnswersOnly p) (hb : b.AnswersOnly p) : (if c then a else b).AnswersOnly p := by
  split
  · exact ha
  · exact hb

theorem answersOnly_mapM {p : β → Prop} {f : α → Activity β} (h : ∀ x, (f x).AnswersOnly p) :
    ∀ xs : List α, (xs.mapM f).AnswersOnly fun ys => ∀ y ∈ ys, p y
  | [] => answersOnly_pure (by simp)
  | x :: xs => by
    rw [List.mapM_cons]
    exact (h x).bind fun _ hy => (answersOnly_mapM h xs).bind fun _ hys =>
      answersOnly_pure (List.forall_mem_cons.mpr ⟨hy, hys⟩)

end Activity

open Activity (answersOnly_ite answersOnly_mapM answersOnly_pure answersOnly_true
  exists_of_toOption)

/-! ## Counts beside documents -/

/-- The count is that of the content. -/
def CountedDocument.IsCounted (d : CountedDocument) : Prop := d.tokens = estimateTokens d.content

theorem Document.isCounted_counted (d : Document) : d.counted.IsCounted := rfl

theorem CountedDocument.isCounted_setContent (d : CountedDocument) (content : String) :
    (d.setContent content).IsCounted := rfl

namespace Assembly

/-- The counts beside the rules and the task are those of their contents. -/
structure IsCounted (a : Assembly) : Prop where
  rules : ∀ rule ∈ a.rules, rule.IsCounted
  task : a.task.IsCounted

section Run

variable (host : Host) (options : Options) (bases : List Base)

theorem isCounted_expandRule {rule : CountedDocument} (h : rule.IsCounted) :
    (expandRule host options rule).AnswersOnly CountedDocument.IsCounted :=
  answersOnly_ite
    ((answersOnly_true _).bind fun _ _ => answersOnly_pure (rule.isCounted_setContent _))
    (answersOnly_pure h)

theorem isCounted_resolveRule (setting : Setting) (c : Candidate) :
    (resolveRule host options setting c).AnswersOnly fun answer =>
      ∀ rule ∈ answer, rule.IsCounted := by
  refine answersOnly_ite (answersOnly_pure (by simp)) ?_
  refine (answersOnly_true _).bind fun document _ => ?_
  refine answersOnly_ite (answersOnly_pure (by simp)) ?_
  refine (answersOnly_true _).bind fun _ _ => ?_
  -- the count made on reading is what the expansion starts from, and all there is without one
  refine (isCounted_expandRule host options document.isCounted_counted).bind fun rule h => ?_
  exact answersOnly_pure (by simpa using h)

theorem isCounted_resolveRules (setting : Setting) :
    (resolveRules host options bases setting).AnswersOnly fun rules =>
      ∀ rule ∈ rules, rule.IsCounted := by
  refine (answersOnly_true _).bind fun candidates _ => ?_
  refine (answersOnly_mapM (isCounted_resolveRule host options setting) candidates).bind
    fun answers h => answersOnly_pure fun rule hrule => ?_
  obtain ⟨answer, hanswer, hsome⟩ := List.mem_filterMap.mp hrule
  exact h answer hanswer rule hsome

theorem isCounted_resolveTask (name : String) :
    (resolveTask host options bases name).AnswersOnly fun answer => answer.1.IsCounted := by
  refine (answersOnly_true _).bind fun document _ => ?_
  refine (answersOnly_true _).bind fun agent _ => ?_
  refine (answersOnly_true _).bind fun blocks _ => ?_
  refine (answersOnly_true _).bind fun resolved _ => ?_
  exact answersOnly_pure (document.counted.isCounted_setContent _)

theorem isCounted_assembleIn (name : String) :
    (assembleIn host options bases name).AnswersOnly IsCounted := by
  refine (isCounted_resolveTask host options bases name).bind fun resolved htask => ?_
  refine answersOnly_ite (answersOnly_pure ⟨by simp, htask⟩) ?_
  refine (isCounted_resolveRules host options bases resolved.2).bind fun rules hrules => ?_
  exact (answersOnly_true _).bind fun _ _ => answersOnly_pure ⟨hrules, htask⟩

theorem isCounted_assemble (name : String) : (assemble host options name).AnswersOnly IsCounted := by
  rw [assemble_eq]
  -- the downloads are removed behind the answer, which stays as it is
  refine (answersOnly_true _).bind fun roots _ s a h => ?_
  exact isCounted_assembleIn host options (options.bases roots.roots) name s a h

end Run

end Assembly

/-! ## Counts of texts that stand one after the other -/

/-- A text on a line of its own adds its tokens to those of what follows, and perhaps one. -/
theorem estimateTokens_line (text rest : String) :
    estimateTokens text + estimateTokens rest ≤ estimateTokens (text ++ "\n" ++ rest)
      ∧ estimateTokens (text ++ "\n" ++ rest) ≤ estimateTokens text + estimateTokens rest + 1 := by
  have hlength : (text ++ "\n" ++ rest).length = text.length + rest.length + 1 := by
    rw [String.length_append, String.length_append, Nat.add_right_comm]
    rfl
  unfold estimateTokens
  omega

theorem Skill.isEmpty_renderAll (skills : List Skill) :
    (renderAll skills).isEmpty = skills.isEmpty := by
  cases skills with
  | nil => rfl
  | cons s skills => simp [renderAll]

namespace Assembly

/-- Rules in front of a text add their tokens to its own, and perhaps one for each of them. -/
theorem estimateTokens_rules {rules : List CountedDocument} (h : ∀ rule ∈ rules, rule.IsCounted)
    (rest : String) :
    let counted := rules.foldr (fun d n => d.tokens + n) 0 + estimateTokens rest
    let text := String.join (rules.map (·.content ++ "\n")) ++ rest
    counted ≤ estimateTokens text ∧ estimateTokens text ≤ counted + rules.length := by
  induction rules with
  | nil => simp
  | cons rule rules ih =>
    obtain ⟨hrule, hrules⟩ := List.forall_mem_cons.mp h
    obtain ⟨hlower, hupper⟩ := ih hrules
    have hline := estimateTokens_line rule.content
      (String.join (rules.map (·.content ++ "\n")) ++ rest)
    rw [CountedDocument.IsCounted] at hrule
    simp only [List.map_cons, String.join_cons, String.append_assoc, List.foldr_cons,
      List.length_cons] at hline ⊢
    omega

theorem estimateTokens_skills (skills : List Skill) (rest : String) :
    let block := Skill.renderAll skills
    let counted := estimateTokens block + estimateTokens rest
    let text := (if block.isEmpty then "" else block ++ "\n") ++ rest
    counted ≤ estimateTokens text
      ∧ estimateTokens text ≤ counted + (if skills.isEmpty then 0 else 1) := by
  dsimp only
  rw [Skill.isEmpty_renderAll]
  cases skills with
  | nil => simp [Skill.renderAll, estimateTokens]
  | cons s skills => exact estimateTokens_line (Skill.renderAll (s :: skills)) rest

/-- A run that answers has counted the tokens of each rule and of the task as they stand in the
prompt. The prompt has as many tokens as all its parts together, or more by at most one for each
rule and one for the list of skills. -/
theorem assemble_tokens {host : Host} {options : Options} {name : String} {s s' : Session}
    {a : Assembly} (h : (assemble host options name).run s = (.ok a, s')) :
    (∀ rule ∈ a.rules, rule.tokens = estimateTokens rule.content)
      ∧ a.task.tokens = estimateTokens a.task.content
      ∧ a.tokens ≤ estimateTokens a.prompt
      ∧ estimateTokens a.prompt
        ≤ a.tokens + a.rules.length + (if a.skills.isEmpty then 0 else 1) := by
  have hcounted := isCounted_assemble host options name s a (by rw [h])
  have htask : a.task.tokens = estimateTokens a.task.content := hcounted.task
  have hskills := estimateTokens_skills a.skills a.task.content
  have hrules := estimateTokens_rules hcounted.rules
    ((if (Skill.renderAll a.skills).isEmpty then "" else Skill.renderAll a.skills ++ "\n")
      ++ a.task.content)
  refine ⟨hcounted.rules, htask, ?_⟩
  rw [prompt, tokens, String.append_assoc, htask]
  dsimp only at hskills hrules
  omega

/-- A disk with a task, a rule that is one token shorter once it is expanded, and a skill. -/
def dateDisk : Disk where
  entries := [(["w"], .directory 0o755), (["w", ".agents"], .directory 0o755),
    (["w", ".agents", "tasks"], .directory 0o755),
    (["w", ".agents", "tasks", "t.md"], .file "Do it\n".toUTF8 0o644),
    (["w", ".agents", "rules"], .directory 0o755),
    (["w", ".agents", "rules", "a.md"], .file "Now: !`date`".toUTF8 0o644),
    (["w", ".agents", "skills"], .directory 0o755),
    (["w", ".agents", "skills", "go"], .directory 0o755),
    (["w", ".agents", "skills", "go", "SKILL.md"],
      .file "---\nname: go\ndescription: Walk\n---\n".toUTF8 0o644)]
  current := []

/-- The tokens of an expanded rule are counted again, and a rule and a list of skills can make a
token each beside those of the parts. -/
theorem assemble_tokens_dateDisk : ∃ a s',
    (assemble (steadyHost printCommand) taskOptions "t").run ⟨dateDisk, [], []⟩ = (.ok a, s')
      ∧ (a.rules.map fun rule => (rule.content, rule.tokens)) = [("Now: <date>", 2)]
      ∧ (∀ rule ∈ a.rules, rule.tokens = estimateTokens rule.content)
      ∧ a.task.tokens = estimateTokens a.task.content
      ∧ a.tokens ≤ estimateTokens a.prompt
      ∧ estimateTokens a.prompt
        ≤ a.tokens + a.rules.length + (if a.skills.isEmpty then 0 else 1)
      ∧ estimateTokens a.prompt = a.tokens + 2 := by
  obtain ⟨a, s', hrun, hfacts⟩ := exists_of_toOption (show
    ((assemble (steadyHost printCommand) taskOptions "t").run ⟨dateDisk, [], []⟩).1.toOption.map
        (fun a => (a.rules.map fun rule => (rule.content, rule.tokens), a.tokens,
          estimateTokens a.prompt))
      = some ([("Now: <date>", 2)], 45, 47) by decide +kernel)
  obtain ⟨hrules, hsums⟩ := Prod.mk.inj hfacts
  obtain ⟨htokens, hprompt⟩ := Prod.mk.inj hsums
  obtain ⟨hcounted, htask, hlower, hupper⟩ := assemble_tokens hrun
  exact ⟨a, s', hrun, hrules, hcounted, htask, hlower, hupper, by omega⟩

end Assembly

end Briefing

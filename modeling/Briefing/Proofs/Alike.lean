import Briefing.Assembly
import Briefing.Proofs.Segmentation
import Mathlib.Data.List.Forall2

/-!
# Parameters decide on texts only

Two activities are alike if from every session they go on to the same session, and either fail with
the same error or give related answers. Expansions with different parameters are alike, whatever
their texts are (`expand_alike`), and nothing else in the making of a prompt looks at a parameter or
at an expanded text. So two runs that differ in their parameters ask for the same programs and the
same sources, and end in the same way (`assemble_params`).
-/

namespace Briefing

namespace Activity

variable {α β γ δ : Type}

/-- Two activities that leave every session in the same way, and fail with the same error or give
answers related by `r`. -/
def Alike (r : α → β → Prop) (a : Activity α) (b : Activity β) : Prop :=
  ∀ s, (∃ e s', a.run s = (.error e, s') ∧ b.run s = (.error e, s'))
    ∨ ∃ x y s', a.run s = (.ok x, s') ∧ b.run s = (.ok y, s') ∧ r x y

theorem alike_refl {r : α → α → Prop} (hr : ∀ x, r x x) (a : Activity α) : Alike r a a := by
  intro s
  rcases h : a.run s with ⟨e | x, s'⟩
  · exact .inl ⟨e, s', rfl, rfl⟩
  · exact .inr ⟨x, x, s', rfl, rfl, hr x⟩

theorem alike_pure {r : α → β → Prop} {x : α} {y : β} (h : r x y) :
    Alike r (pure x) (pure y) := fun s => .inr ⟨x, y, s, rfl, rfl, h⟩

theorem alike_fail {r : α → β → Prop} (e : Error) : Alike r (fail e) (fail e) :=
  fun s => .inl ⟨e, s, rfl, rfl⟩

theorem alike_ite {r : α → β → Prop} {c : Prop} [Decidable c] {a a' : Activity α}
    {b b' : Activity β} (h : Alike r a b) (h' : Alike r a' b') :
    Alike r (if c then a else a') (if c then b else b') := by
  split
  · exact h
  · exact h'

theorem Alike.bind {r : α → β → Prop} {q : γ → δ → Prop} {a : Activity α} {b : Activity β}
    {f : α → Activity γ} {g : β → Activity δ} (h : Alike r a b)
    (hfg : ∀ x y, r x y → Alike q (f x) (g y)) : Alike q (a >>= f) (b >>= g) := by
  intro s
  rcases h s with ⟨e, s', ha, hb⟩ | ⟨x, y, s', ha, hb, hr⟩
  · exact .inl ⟨e, s', by simp [ha], by simp [hb]⟩
  · simp only [run_bind, ha, hb]
    exact hfg x y hr s'

/-- What goes on alike from every answer of one activity is alike. -/
theorem alike_bind_same {q : γ → δ → Prop} (a : Activity α) {f : α → Activity γ}
    {g : α → Activity δ} (h : ∀ x, Alike q (f x) (g x)) : Alike q (a >>= f) (a >>= g) :=
  (alike_refl (r := Eq) (fun _ => rfl) a).bind fun x _ hxy => hxy ▸ h x

theorem alike_mapM {r : β → γ → Prop} {f : α → Activity β} {g : α → Activity γ}
    (h : ∀ x, Alike r (f x) (g x)) :
    ∀ xs : List α, Alike (List.Forall₂ r) (xs.mapM f) (xs.mapM g)
  | [] => alike_pure .nil
  | x :: xs => by
    rw [List.mapM_cons, List.mapM_cons]
    exact (h x).bind fun y z hyz => (alike_mapM h xs).bind fun ys zs hs =>
      alike_pure (.cons hyz hs)

theorem Alike.finallyChange {r : α → β → Prop} {a : Activity α} {b : Activity β}
    (h : Alike r a b) (f : Disk → Disk) : Alike r (a.finallyChange f) (b.finallyChange f) := by
  intro s
  rcases h s with ⟨e, s', ha, hb⟩ | ⟨x, y, s', ha, hb, hr⟩
  · refine .inl ⟨e, { s' with disk := f s'.disk }, ?_, ?_⟩
    · rw [run] at ha; simp [Activity.finallyChange, run, ha]
    · rw [run] at hb; simp [Activity.finallyChange, run, hb]
  · refine .inr ⟨x, y, { s' with disk := f s'.disk }, ?_, ?_, hr⟩
    · rw [run] at ha; simp [Activity.finallyChange, run, ha]
    · rw [run] at hb; simp [Activity.finallyChange, run, hb]

end Activity

open Activity (Alike alike_pure alike_fail alike_ite alike_bind_same alike_mapM)

namespace Expansion

variable {host : Host} {params params' : Params} {base : Path}

theorem Becomes.session_eq {p : Segment} {s s₁ s₂ : Session} {value value' : String}
    (h : Becomes host params base p s value s₁) (h' : Becomes host params' base p s value' s₂) :
    s₁ = s₂ := by
  cases h <;> cases h' <;> simp_all

/-- What segments leave of a session does not depend on the parameters. -/
theorem BecomeAll.session_eq {ps : List Segment} {s s₁ s₂ : Session} {values values' : List String}
    (h : BecomeAll host params base ps s values s₁)
    (h' : BecomeAll host params' base ps s values' s₂) : s₁ = s₂ := by
  induction h generalizing values' with
  | nil => cases h'; rfl
  | cons hp _ ih =>
    cases h' with
    | cons hp' hps' =>
      obtain rfl := hp.session_eq hp'
      exact ih hps'

theorem expand_alike (host : Host) (params params' : Params) (base : Path) (content : String) :
    Alike (fun _ _ => True) (expand host params base content)
      (expand host params' base content) := by
  intro s
  obtain ⟨values, s₁, hrun, h⟩ := run_expandAfter host params base "" none content.toList s
  obtain ⟨values', s₂, hrun', h'⟩ := run_expandAfter host params' base "" none content.toList s
  obtain rfl := h.session_eq h'
  exact .inr ⟨_, _, s₁, hrun, hrun', trivial⟩

end Expansion

/-- Documents that differ in nothing but their contents and the counts of these. -/
def CountedDocument.SameBesideContent (d d' : CountedDocument) : Prop :=
  d.path = d'.path ∧ d.frontMatter = d'.frontMatter

namespace Assembly

/-- Parts of prompts that differ in nothing but the contents of rules and of the task. -/
structure SameBesideContents (a a' : Assembly) : Prop where
  agent : a.agent = a'.agent
  rules : a.rules.Forall₂ CountedDocument.SameBesideContent a'.rules
  skills : a.skills = a'.skills
  task : a.task.SameBesideContent a'.task

section Params

variable (host : Host) (options : Options) (bases : List Base) (params : Params)

theorem expandIf_alike (fm : FrontMatter) (p p' : Params) (content : String) :
    Alike (fun _ _ => True) (expandIf host options fm p content)
      (expandIf host { options with params } fm p' content) := by
  unfold expandIf
  exact alike_ite (Expansion.expand_alike host p p' options.directory content)
    (alike_pure trivial)

theorem resolveBlock_alike (fm : FrontMatter) (selectors : Selectors) (block : Task.Block) :
    Alike (fun x y => x.2 = y.2) (resolveBlock host options bases fm selectors block)
      (resolveBlock host { options with params } bases fm selectors block) := by
  cases block with
  | text fragments =>
    exact (expandIf_alike host options params fm _ _ _).bind fun _ _ _ => alike_pure rfl
  | command c =>
    refine alike_bind_same (commandDocument options bases selectors c.name) fun found => ?_
    rcases found with _ | document
    · rcases c.source with _ | source
      · exact alike_fail _
      · exact (expandIf_alike host options params fm _ _ _).bind fun _ _ _ => alike_pure rfl
    · exact (expandIf_alike host options params document.frontMatter _ _ _).bind
        fun _ _ _ => alike_pure rfl

theorem resolveBlocks_alike (fm : FrontMatter) :
    ∀ (blocks : List Task.Block) (selectors : Selectors),
      Alike (fun x y => x.2 = y.2) (resolveBlocks host options bases fm selectors blocks)
        (resolveBlocks host { options with params } bases fm selectors blocks)
  | [], _ => alike_pure rfl
  | block :: blocks, selectors => by
    unfold resolveBlocks
    refine (resolveBlock_alike host options bases params fm selectors block).bind ?_
    rintro ⟨_, selectors₁⟩ ⟨_, selectors₂⟩ (rfl : selectors₁ = selectors₂)
    refine (resolveBlocks_alike fm blocks selectors₁).bind ?_
    rintro ⟨_, _⟩ ⟨_, _⟩ h
    exact alike_pure h

theorem resolveTask_alike (name : String) :
    Alike (fun x y => x.1.SameBesideContent y.1 ∧ x.2 = y.2)
      (resolveTask host options bases name)
      (resolveTask host { options with params } bases name) := by
  unfold resolveTask
  refine alike_bind_same (taskDocument options bases name) fun document => ?_
  refine alike_bind_same (.ofExcept (taskAgent options document.frontMatter)) fun agent => ?_
  refine alike_bind_same (.ofExcept (taskBlocks options document)) fun blocks => ?_
  refine (resolveBlocks_alike host options bases params _ blocks _).bind ?_
  rintro ⟨_, _⟩ ⟨_, _⟩ rfl
  exact alike_pure ⟨⟨rfl, rfl⟩, rfl⟩

theorem expandRule_alike (rule : Document) :
    Alike CountedDocument.SameBesideContent (expandRule host options rule.counted)
      (expandRule host { options with params } rule.counted) := by
  rw [expandRule_counted, expandRule_counted]
  exact (expandIf_alike host options params _ _ _ _).bind fun _ _ _ => alike_pure ⟨rfl, rfl⟩

theorem resolveRule_alike (setting : Setting) (c : Candidate) :
    Alike (Option.Rel CountedDocument.SameBesideContent) (resolveRule host options setting c)
      (resolveRule host { options with params } setting c) := by
  unfold resolveRule
  refine alike_ite (alike_pure .none) ?_
  refine alike_bind_same (Activity.onDisk (·.load c.path)) fun document => ?_
  refine alike_ite (alike_pure .none) ?_
  refine alike_bind_same (bootstrap host options document) fun _ => ?_
  exact (expandRule_alike host options params document).bind fun _ _ h => alike_pure (.some h)

theorem forall₂_filterMap_id {α β : Type} {r : α → β → Prop} {xs : List (Option α)}
    {ys : List (Option β)} (h : xs.Forall₂ (Option.Rel r) ys) :
    (xs.filterMap id).Forall₂ r (ys.filterMap id) := by
  induction h with
  | nil => exact .nil
  | cons h _ ih =>
    cases h with
    | some h => exact .cons h ih
    | none => exact ih

theorem resolveRules_alike (setting : Setting) :
    Alike (List.Forall₂ CountedDocument.SameBesideContent) (resolveRules host options bases setting)
      (resolveRules host { options with params } bases setting) := by
  unfold resolveRules
  refine alike_bind_same
    (Activity.onDisk fun d => Search.candidates d options.table bases .rules) fun candidates => ?_
  exact (alike_mapM (resolveRule_alike host options params setting) candidates).bind
    fun _ _ h => alike_pure (forall₂_filterMap_id h)

theorem assembleIn_alike (name : String) :
    Alike SameBesideContents (assembleIn host options bases name)
      (assembleIn host { options with params } bases name) := by
  unfold assembleIn
  refine (resolveTask_alike host options bases params name).bind ?_
  rintro ⟨task, setting⟩ ⟨task', setting'⟩ ⟨htask, rfl⟩
  refine alike_ite (alike_pure ⟨rfl, .nil, rfl, htask⟩) ?_
  refine (resolveRules_alike host options bases params setting).bind fun rules rules' hrules => ?_
  exact alike_bind_same (resolveSkills options bases setting) fun skills =>
    alike_pure ⟨rfl, hrules, rfl, htask⟩

/-- Two runs that differ in their parameters go through the same calls and fetches, and either fail
with the same error or give prompts that differ in nothing but contents. -/
theorem assemble_params (name : String) (s : Session) :
    (∃ e s', (assemble host options name).run s = (.error e, s')
        ∧ (assemble host { options with params } name).run s = (.error e, s'))
      ∨ ∃ a a' s', (assemble host options name).run s = (.ok a, s')
        ∧ (assemble host { options with params } name).run s = (.ok a', s')
        ∧ SameBesideContents a a' := by
  have h : Alike SameBesideContents (assemble host options name)
      (assemble host { options with params } name) := by
    have hlisted : ({ options with params } : Options).listedSources host
        = options.listedSources host := rfl
    unfold assemble Options.useBases SearchRoots.use
    rw [hlisted]
    refine alike_bind_same (options.listedSources host) fun listed => ?_
    refine alike_bind_same
      (SearchRoots.resolve host (options.sources ++ listed) options.directory) fun roots => ?_
    exact (assembleIn_alike host options (options.bases roots.roots) params name).finallyChange _
  exact h s

end Params

end Assembly

end Briefing

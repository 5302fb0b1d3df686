import Briefing.Files.Disk
import Mathlib.Tactic.Common
import Mathlib.Data.String.Basic

/-!
# Where paths lead

The steps of a path lead from a location to another one over so many links (`Leads`), which is what
following it computes (`resolve_eq_ok`). Where further steps lead depends on nothing but the
location that the first ones lead to and the links that are left (`Leads.append`, `Leads.split`).
Steps lead to the same place on a disk that has more (`Leads.extends`).
-/

namespace Briefing

namespace Disk

open Files (Fault)

/-- A text that can be the name of something in a directory. -/
structure IsName (name : String) : Prop where
  ne_empty : name ≠ ""
  ne_here : name ≠ "."
  ne_up : name ≠ ".."
  size : name.utf8ByteSize ≤ nameLimit

/-- Where what a link leads to starts. -/
def linkStart (location : Location) (target : String) : Location :=
  if (Path.mk target).isAbsolute then [] else location

/-- Steps lead from a location to another one over so many links. -/
inductive Leads (d : Disk) (follow : Bool) : Nat → Location → List String → Location → Prop
  | done (location : Location) : Leads d follow 0 location [] location
  | stay {links : Nat} {here there : Location} {step : String} {rest : List String}
      (hd : d.isDirectoryAt here = true) (hs : step = "" ∨ step = ".")
      (h : Leads d follow links here rest there) : Leads d follow links here (step :: rest) there
  | up {links : Nat} {here there : Location} {rest : List String}
      (hd : d.isDirectoryAt here = true) (h : Leads d follow links here.dropLast rest there) :
      Leads d follow links here (".." :: rest) there
  | name {links : Nat} {here there : Location} {step : String} {rest : List String} {entry : Entry}
      (hd : d.isDirectoryAt here = true) (hs : IsName step)
      (he : d.entry? (here ++ [step]) = some entry) (hl : ∀ target, entry ≠ .link target)
      (h : Leads d follow links (here ++ [step]) rest there) :
      Leads d follow links here (step :: rest) there
  | stop {here : Location} {step target : String} (hd : d.isDirectoryAt here = true)
      (hs : IsName step) (he : d.entry? (here ++ [step]) = some (.link target))
      (hf : follow = false) : Leads d follow 0 here [step] (here ++ [step])
  | link {links : Nat} {here there : Location} {step target : String} {rest : List String}
      (hd : d.isDirectoryAt here = true) (hs : IsName step)
      (he : d.entry? (here ++ [step]) = some (.link target)) (hf : rest = [] → follow = true)
      (h : Leads d follow links (linkStart here target) (steps target ++ rest) there) :
      Leads d follow (links + 1) here (step :: rest) there

section Leads

variable {d : Disk} {follow : Bool}

/-- What becomes of a link, if so many may be followed. -/
def followLink (d : Disk) (follow : Bool) : Nat → Location → List String → Except Fault Location
  | 0 => fun _ _ => .error .linkLoop
  | links + 1 => d.walkSteps follow links

theorem walkSteps_eq (d : Disk) (follow : Bool) (links : Nat) :
    d.walkSteps follow links = d.walkWith follow (d.followLink follow links) := by
  cases links <;> rfl

section Equations

variable {onLink : Location → List String → Except Fault Location} {here : Location} {step : String}
  {rest : List String}

theorem walkWith_stay (hd : d.isDirectoryAt here = true) (hs : step = "" ∨ step = ".") :
    d.walkWith follow onLink here (step :: rest) = d.walkWith follow onLink here rest := by
  rw [walkWith, hd, if_neg (by simp), if_pos hs]

theorem walkWith_up (hd : d.isDirectoryAt here = true) :
    d.walkWith follow onLink here (".." :: rest) = d.walkWith follow onLink here.dropLast rest := by
  rw [walkWith, hd, if_neg (by simp), if_neg (by decide), if_pos rfl]

/-- How a walk goes on at a name depends on what has the name. -/
theorem walkWith_isName (hd : d.isDirectoryAt here = true) (hs : IsName step) :
    d.walkWith follow onLink here (step :: rest) = match d.entry? (here ++ [step]) with
      | none => .error .notFound
      | some (.link target) => if rest = [] ∧ !follow then .ok (here ++ [step])
        else onLink (linkStart here target) (steps target ++ rest)
      | some _ => d.walkWith follow onLink (here ++ [step]) rest := by
  have hsize := hs.size
  rw [walkWith, hd, if_neg (by simp), if_neg (by simp [hs.ne_empty, hs.ne_here]),
    if_neg hs.ne_up, if_neg (by omega)]
  rfl

theorem walkWith_name (hd : d.isDirectoryAt here = true) (hs : IsName step) {entry : Entry}
    (he : d.entry? (here ++ [step]) = some entry) (hl : ∀ target, entry ≠ .link target) :
    d.walkWith follow onLink here (step :: rest)
      = d.walkWith follow onLink (here ++ [step]) rest := by
  rw [walkWith_isName hd hs, he]
  cases entry with
  | link target => exact absurd rfl (hl target)
  | file _ _ | directory _ | device _ => rfl

theorem walkWith_link (hd : d.isDirectoryAt here = true) (hs : IsName step) {target : String}
    (he : d.entry? (here ++ [step]) = some (.link target)) (hf : rest = [] → follow = true) :
    d.walkWith follow onLink here (step :: rest)
      = onLink (linkStart here target) (steps target ++ rest) := by
  rw [walkWith_isName hd hs, he]
  exact if_neg (by rintro ⟨hr, h⟩; simp [hf hr] at h)

end Equations

theorem Leads.walkSteps {links limit : Nat} {here there : Location} {names : List String}
    (h : d.Leads follow links here names there) (hlimit : links ≤ limit) :
    d.walkSteps follow limit here names = .ok there := by
  induction h generalizing limit with
  | done => rw [walkSteps_eq, walkWith]
  | stay hd hs _ ih =>
    rw [walkSteps_eq, walkWith_stay hd hs, ← walkSteps_eq]
    exact ih hlimit
  | up hd _ ih =>
    rw [walkSteps_eq, walkWith_up hd, ← walkSteps_eq]
    exact ih hlimit
  | name hd hs he hl _ ih =>
    rw [walkSteps_eq, walkWith_name hd hs he hl, ← walkSteps_eq]
    exact ih hlimit
  | stop hd hs he hf =>
    rw [walkSteps_eq, walkWith_isName hd hs, he]
    simp [hf]
  | @link links here there step target rest hd hs he hf _ ih =>
    obtain ⟨limit, rfl⟩ : ∃ n, limit = n + 1 := ⟨limit - 1, by omega⟩
    rw [walkSteps_eq, walkWith_link hd hs he hf]
    exact ih (by omega)

/-- Steps that lead over more links than may be followed lead nowhere. -/
theorem Leads.walkSteps_of_lt {links limit : Nat} {here there : Location} {names : List String}
    (h : d.Leads follow links here names there) (hlimit : limit < links) :
    d.walkSteps follow limit here names = .error .linkLoop := by
  induction h generalizing limit with
  | done => omega
  | stay hd hs _ ih =>
    rw [walkSteps_eq, walkWith_stay hd hs, ← walkSteps_eq]
    exact ih hlimit
  | up hd _ ih =>
    rw [walkSteps_eq, walkWith_up hd, ← walkSteps_eq]
    exact ih hlimit
  | name hd hs he hl _ ih =>
    rw [walkSteps_eq, walkWith_name hd hs he hl, ← walkSteps_eq]
    exact ih hlimit
  | stop => omega
  | link hd hs he hf _ ih =>
    rw [walkSteps_eq, walkWith_link hd hs he hf]
    cases limit with
    | zero => rfl
    | succ limit => exact ih (by omega)

theorem exists_leads_of_walkWith {limit : Nat}
    (hlink : ∀ {here there : Location} {names : List String},
      d.followLink follow limit here names = .ok there →
        ∃ links < limit, d.Leads follow links here names there) :
    ∀ {names : List String} {here there : Location},
      d.walkWith follow (d.followLink follow limit) here names = .ok there →
        ∃ links ≤ limit, d.Leads follow links here names there
  | [], here, there, h => by
    rw [walkWith] at h
    obtain rfl := Except.ok.inj h
    exact ⟨0, Nat.zero_le _, .done here⟩
  | step :: rest, here, there, h => by
    rw [walkWith] at h
    split at h
    · cases h
    · rename_i hd
      rw [Bool.not_eq_true', Bool.not_eq_false] at hd
      split at h
      · obtain ⟨links, hle, h⟩ := exists_leads_of_walkWith hlink h
        exact ⟨links, hle, .stay hd ‹_› h⟩
      · rename_i hsilent
        split at h
        · rename_i hup
          obtain ⟨links, hle, h⟩ := exists_leads_of_walkWith hlink h
          exact ⟨links, hle, hup ▸ .up hd h⟩
        · rename_i hup
          split at h
          · cases h
          · have hname : IsName step :=
              ⟨fun h => hsilent (.inl h), fun h => hsilent (.inr h), hup, by omega⟩
            split at h
            · cases h
            · rename_i target he
              split at h
              · rename_i hstop
                obtain ⟨rfl, hf⟩ := hstop
                obtain rfl := Except.ok.inj h
                exact ⟨0, Nat.zero_le _, .stop hd hname he (by simpa using hf)⟩
              · rename_i hgo
                obtain ⟨links, hlt, h⟩ := hlink h
                exact ⟨links + 1, hlt, .link hd hname he (by simpa using hgo) h⟩
            · rename_i entry hl he
              obtain ⟨links, hle, h⟩ := exists_leads_of_walkWith hlink h
              exact ⟨links, hle, .name hd hname he hl h⟩

theorem exists_leads {limit : Nat} {here there : Location} {names : List String}
    (h : d.walkSteps follow limit here names = .ok there) :
    ∃ links ≤ limit, d.Leads follow links here names there := by
  induction limit generalizing here there names with
  | zero => exact exists_leads_of_walkWith (by rintro _ _ _ ⟨⟩) h
  | succ limit ih =>
    refine exists_leads_of_walkWith (fun h => ?_) h
    obtain ⟨links, hle, h⟩ := ih h
    exact ⟨links, Nat.lt_succ_of_le hle, h⟩

theorem Leads.eq {links links' : Nat} {here there there' : Location} {names : List String}
    (h : d.Leads follow links here names there) (h' : d.Leads follow links' here names there') :
    there = there' :=
  Except.ok.inj ((h.walkSteps (Nat.le_max_left links links')).symm.trans
    (h'.walkSteps (Nat.le_max_right links links')))

/-- What leads on leads from where the steps before led. -/
theorem Leads.append {links links' : Nat} {here middle there : Location}
    {front back : List String} (h : d.Leads true links here front middle) (hb : back ≠ [])
    (h' : d.Leads follow links' middle back there) :
    d.Leads follow (links + links') here (front ++ back) there := by
  induction h with
  | done => simpa using h'
  | stay hd hs _ ih => exact .stay hd hs (ih h')
  | up hd _ ih => exact .up hd (ih h')
  | name hd hs he hl _ ih => exact .name hd hs he hl (ih h')
  | stop _ _ _ hf => cases hf
  | link hd hs he hf _ ih =>
    rw [Nat.add_right_comm, List.cons_append]
    refine .link hd hs he (fun h => ?_) (by rw [← List.append_assoc]; exact ih h')
    simp [hb] at h

theorem Leads.split {links : Nat} {here there : Location} {front back : List String}
    (hb : back ≠ []) (h : d.Leads follow links here (front ++ back) there) :
    ∃ middle links₁ links₂, links = links₁ + links₂ ∧ d.Leads true links₁ here front middle
      ∧ d.Leads follow links₂ middle back there := by
  generalize hnames : front ++ back = names at h
  induction h generalizing front with
  | done => simp [hb] at hnames
  | @stay links here there step rest hd hs h ih =>
    rcases List.append_eq_cons_iff.mp hnames with ⟨rfl, rfl⟩ | ⟨front, rfl, rfl⟩
    · exact ⟨_, _, _, (Nat.zero_add _).symm, .done _, .stay hd hs h⟩
    · obtain ⟨middle, links₁, links₂, hsum, h₁, h₂⟩ := ih rfl
      exact ⟨middle, links₁, links₂, hsum, .stay hd hs h₁, h₂⟩
  | @up links here there rest hd h ih =>
    rcases List.append_eq_cons_iff.mp hnames with ⟨rfl, rfl⟩ | ⟨front, rfl, rfl⟩
    · exact ⟨_, _, _, (Nat.zero_add _).symm, .done _, .up hd h⟩
    · obtain ⟨middle, links₁, links₂, hsum, h₁, h₂⟩ := ih rfl
      exact ⟨middle, links₁, links₂, hsum, .up hd h₁, h₂⟩
  | @name links here there step rest entry hd hs he hl h ih =>
    rcases List.append_eq_cons_iff.mp hnames with ⟨rfl, rfl⟩ | ⟨front, rfl, rfl⟩
    · exact ⟨_, _, _, (Nat.zero_add _).symm, .done _, .name hd hs he hl h⟩
    · obtain ⟨middle, links₁, links₂, hsum, h₁, h₂⟩ := ih rfl
      exact ⟨middle, links₁, links₂, hsum, .name hd hs he hl h₁, h₂⟩
  | @stop here step target hd hs he hf =>
    rcases List.append_eq_cons_iff.mp hnames with ⟨rfl, rfl⟩ | ⟨front, rfl, hnil⟩
    · exact ⟨_, _, _, (Nat.zero_add _).symm, .done _, .stop hd hs he hf⟩
    · exact absurd (List.append_eq_nil_iff.mp hnil.symm).2 hb
  | @link links here there step target rest hd hs he hf h ih =>
    rcases List.append_eq_cons_iff.mp hnames with ⟨rfl, rfl⟩ | ⟨front, rfl, rfl⟩
    · exact ⟨_, _, _, (Nat.zero_add _).symm, .done _, .link hd hs he hf h⟩
    · obtain ⟨middle, links₁, links₂, rfl, h₁, h₂⟩ := ih (List.append_assoc ..)
      exact ⟨middle, links₁ + 1, links₂, Nat.add_right_comm .., .link hd hs he (fun _ => rfl) h₁,
        h₂⟩

/-- A disk that has all that another one has, at the same locations. -/
structure Extends (d d' : Disk) : Prop where
  current : d'.current = d.current
  entries : ∀ {location entry}, d.entry? location = some entry → d'.entry? location = some entry

theorem Extends.isDirectoryAt {d' : Disk} (h : Extends d d') {location : Location}
    (hd : d.isDirectoryAt location = true) : d'.isDirectoryAt location = true := by
  unfold Disk.isDirectoryAt at hd ⊢
  split at hd
  · rw [h.entries ‹_›]
  · cases hd

/-- Steps lead where they led when there was less. -/
theorem Leads.extends {d' : Disk} {links : Nat} {here there : Location} {names : List String}
    (h : d.Leads follow links here names there) (hext : Extends d d') :
    d'.Leads follow links here names there := by
  induction h with
  | done => exact .done _
  | stay hd hs _ ih => exact .stay (hext.isDirectoryAt hd) hs ih
  | up hd _ ih => exact .up (hext.isDirectoryAt hd) ih
  | name hd hs he hl _ ih => exact .name (hext.isDirectoryAt hd) hs (hext.entries he) hl ih
  | stop hd hs he hf => exact .stop (hext.isDirectoryAt hd) hs (hext.entries he) hf
  | link hd hs he hf _ ih => exact .link (hext.isDirectoryAt hd) hs (hext.entries he) hf ih

theorem Leads.exists_entry {links : Nat} {here there : Location} {name : String}
    (h : d.Leads follow links here [name] there) (hne : name ≠ "") (hhere : name ≠ ".")
    (hup : name ≠ "..") : ∃ entry, d.entry? (here ++ [name]) = some entry := by
  cases h with
  | stay _ hs => exact absurd hs (by simp [hne, hhere])
  | up => exact absurd rfl hup
  | name _ _ he => exact ⟨_, he⟩
  | stop _ _ he => exact ⟨_, he⟩
  | link _ _ he => exact ⟨_, he⟩

theorem Leads.isDirectoryAt {links : Nat} {here there : Location} {step : String}
    {rest : List String} (h : d.Leads follow links here (step :: rest) there) :
    d.isDirectoryAt here = true := by
  cases h <;> assumption

theorem Leads.eq_of_silent {links : Nat} {here there : Location}
    (h : d.Leads follow links here [""] there) : there = here := by
  generalize hnames : [""] = names at h
  cases h with
  | done => simp at hnames
  | stay _ _ h =>
    obtain ⟨rfl, rfl⟩ := List.cons.inj hnames
    cases h
    rfl
  | up => simp at hnames
  | name _ hs => exact absurd (List.cons.inj hnames).1.symm hs.ne_empty
  | stop _ hs => exact absurd (List.cons.inj hnames).1.symm hs.ne_empty
  | link _ hs => exact absurd (List.cons.inj hnames).1.symm hs.ne_empty

/-- A name leads to what has it, if links are not followed. -/
theorem Leads.eq_append {links : Nat} {here there : Location} {name : String}
    (h : d.Leads false links here [name] there) (hname : IsName name) : there = here ++ [name] := by
  cases h with
  | stay _ hs => exact absurd hs (by simp [hname.ne_empty, hname.ne_here])
  | up => exact absurd rfl hname.ne_up
  | name _ _ _ _ h =>
    cases h
    rfl
  | stop => rfl
  | link _ _ _ hf => cases hf rfl

end Leads

/-! ## Paths -/

section Paths

variable {p q : Path}

theorem join_of_relative (h : q.isAbsolute = false) : p.join q
    = if p.text = "" then q else if p.text.toList.getLast? = some '/' then p.text ++ q.text
      else p.text ++ "/" ++ q.text := by
  simp [Path.join, h, String.isEmpty_iff]

theorem isAbsolute_append {a b : String} (h : a ≠ "") :
    Path.isAbsolute (a ++ b) = Path.isAbsolute a := by
  have hne : a.toList ≠ [] := by simpa using h
  simp [Path.isAbsolute, List.head?_append_of_ne_nil _ hne]

theorem isAbsolute_join (h : q.isAbsolute = false) : (p.join q).isAbsolute = p.isAbsolute := by
  rw [join_of_relative h]
  split_ifs with hp hs
  · rw [h, Path.isAbsolute, hp]
    rfl
  · exact isAbsolute_append hp
  · rw [String.append_assoc]
    exact isAbsolute_append hp

theorem hasNul_join (h : q.isAbsolute = false) :
    (p.join q).hasNul = (p.hasNul || q.hasNul) := by
  rw [join_of_relative h]
  split_ifs with hp hs <;> simp [Path.hasNul, hp]

theorem size_le_join (h : q.isAbsolute = false) :
    p.text.utf8ByteSize ≤ (p.join q).text.utf8ByteSize := by
  rw [join_of_relative h]
  split_ifs with hp hs
  · simp [hp]
  · simp
  · rw [String.append_assoc, String.utf8ByteSize_append]
    exact Nat.le_add_right ..

theorem steps_append_slash (a b : String) : steps (a ++ "/" ++ b) = steps a ++ steps b := by
  simp [steps, Path.segments, List.splitOn_append_cons_self]

theorem steps_name {name : String} (h : '/' ∉ name.toList) : steps name = [name] := by
  simp [steps, Path.segments, List.splitOn_eq_singleton h]

theorem steps_empty : steps "" = [""] := rfl

/-- The steps of a path, without a silent one that is due to a slash at its end. -/
def entrySteps (p : Path) : List String :=
  if p.text = "" ∨ p.text.toList.getLast? = some '/' then (steps p.text).dropLast else steps p.text

theorem steps_append_final_slash (a : String) : steps (a ++ "/") = steps a ++ [""] := by
  rw [← steps_empty, ← steps_append_slash, String.append_empty]

theorem exists_append_slash {a : String} (h : a.toList.getLast? = some '/') :
    ∃ b : String, a = b ++ "/" := by
  obtain ⟨front, hfront⟩ := List.getLast?_eq_some_iff.mp h
  exact ⟨String.ofList front, String.toList_inj.mp (by simpa using hfront)⟩

theorem steps_eq_entrySteps (p : Path) :
    steps p.text = entrySteps p ∨ steps p.text = entrySteps p ++ [""] := by
  rw [entrySteps]
  split_ifs with hp
  · refine .inr ?_
    rcases hp with hp | hp
    · rw [hp]
      rfl
    · obtain ⟨a, ha⟩ := exists_append_slash hp
      rw [ha, steps_append_final_slash, List.dropLast_concat]
  · exact .inl rfl

/-- A final name is never silent. -/
theorem entrySteps_of_steps {front : List String} {name : String} (hne : name ≠ "")
    (h : steps p.text = front ++ [name]) : entrySteps p = steps p.text := by
  rcases steps_eq_entrySteps p with hp | hp
  · exact hp.symm
  · obtain ⟨-, hlast⟩ := List.append_inj' (h.symm.trans hp) rfl
    simp [hne] at hlast

theorem steps_join (h : q.isAbsolute = false) :
    steps (p.join q).text = entrySteps p ++ steps q.text := by
  rw [join_of_relative h, entrySteps]
  by_cases hp : p.text = ""
  · rw [if_pos hp, if_pos (.inl hp), hp]
    rfl
  · rw [if_neg hp]
    split_ifs with hs hor hor
    · obtain ⟨a, ha⟩ := exists_append_slash hs
      rw [ha, steps_append_final_slash, List.dropLast_concat]
      exact steps_append_slash a q.text
    · exact absurd (.inr hs) hor
    · exact absurd hor (by simp [hp, hs])
    · exact steps_append_slash p.text q.text

theorem isAbsolute_name {name : String} (h : '/' ∉ name.toList) :
    Path.isAbsolute name = false := by
  rw [Path.isAbsolute, decide_eq_false_iff_not]
  exact fun hhead => h (List.mem_of_head? hhead)

theorem steps_join_name {p : Path} {name : String} (h : '/' ∉ name.toList) :
    steps (p.join name).text = entrySteps p ++ [name] := by
  rw [steps_join (isAbsolute_name h), steps_name h]

end Paths

/-! ## What a path leads to -/

section Resolve

variable {d : Disk} {follow : Bool} {p : Path} {location : Location}

/-- A path that the system takes. -/
structure IsTaken (p : Path) : Prop where
  ne_empty : p.text ≠ ""
  noNul : p.hasNul = false
  size : p.text.utf8ByteSize ≤ pathLimit

/-- Where a path starts. -/
def start (d : Disk) (p : Path) : Location := if p.isAbsolute then [] else d.current

theorem Extends.start {d' : Disk} (h : Extends d d') (p : Path) : d.start p = d'.start p := by
  rw [Disk.start, Disk.start, h.current]

theorem resolve_eq_ok : d.resolve follow p = .ok location ↔
    IsTaken p ∧ ∃ links ≤ linkLimit, d.Leads follow links (d.start p) (steps p.text) location := by
  rw [resolve, ← start]
  constructor
  · intro h
    split_ifs at h with hempty hnul hsize
    exact ⟨⟨by simpa using hempty, by simpa using hnul, by omega⟩, exists_leads h⟩
  · rintro ⟨⟨hempty, hnul, hsize⟩, links, hle, h⟩
    rw [if_neg (by simpa using hempty), if_neg (by simp [hnul]), if_neg (by omega)]
    exact h.walkSteps hle

theorem Extends.resolve {d' : Disk} (hext : Extends d d') (h : d.resolve follow p = .ok location) :
    d'.resolve follow p = .ok location := by
  obtain ⟨htaken, links, hle, hleads⟩ := resolve_eq_ok.mp h
  exact resolve_eq_ok.mpr ⟨htaken, links, hle, hext.start p ▸ hleads.extends hext⟩

theorem locate_eq {front : List String} {name : String} (hsteps : steps p.text = front ++ [name])
    (hne : name ≠ "") : d.locate p = if p.hasNul then .error .nulInPath
      else if pathLimit < p.text.utf8ByteSize then .error .nameTooLong
      else match d.walkSteps true linkLimit (d.start p) front with
        | .error fault => .error fault
        | .ok directory => if !d.isDirectoryAt directory then .error .notDirectory
          else if nameLimit < name.utf8ByteSize then .error .nameTooLong
          else .ok (directory, name) := by
  have hlast : ((steps p.text).reverse.dropWhile (· = "")).reverse = front ++ [name] := by
    simp [hsteps, hne]
  rw [locate, hlast]
  simp only [List.getLast?_concat, List.dropLast_concat, bind, Except.bind, throw, throwThe,
    MonadExceptOf.throw, pure, Except.pure]
  rw [← start]
  rcases d.walkSteps true linkLimit (d.start p) front with fault | directory
  · split_ifs <;> rfl
  · split_ifs <;> rfl

/-- What a path names in a directory, which need not exist. -/
theorem locate_eq_ok {front : List String} {name : String} (hsteps : steps p.text = front ++ [name])
    (hne : name ≠ "") {x : Location × String} : d.locate p = .ok x ↔
      IsTaken p ∧ name.utf8ByteSize ≤ nameLimit ∧ x.2 = name ∧ d.isDirectoryAt x.1 = true
        ∧ ∃ links ≤ linkLimit, d.Leads true links (d.start p) front x.1 := by
  have htext : p.text ≠ "" := by
    rintro h
    rw [h, steps_empty] at hsteps
    simp_all [List.singleton_eq_append_iff]
  obtain ⟨directory, name'⟩ := x
  rw [locate_eq hsteps hne]
  constructor
  · intro h
    rcases hwalk : d.walkSteps true linkLimit (d.start p) front with fault | directory'
    · rw [hwalk] at h
      split_ifs at h
    · rw [hwalk] at h
      dsimp only at h
      split_ifs at h with hnul hsize hdirectory hname
      obtain ⟨rfl, rfl⟩ := Prod.mk.inj (Except.ok.inj h)
      exact ⟨⟨htext, by simpa using hnul, by omega⟩, by omega, rfl, by simpa using hdirectory,
        exists_leads hwalk⟩
  · rintro ⟨⟨-, hnul, hsize⟩, hname, rfl, hdirectory, links, hle, h⟩
    dsimp only at hname hdirectory h
    rw [if_neg (by simp [hnul]), if_neg (by omega), h.walkSteps hle]
    dsimp only
    rw [if_neg (by simp [hdirectory]), if_neg (by omega)]

/-- What is there and can be named is where its path leads. -/
theorem resolve_of_locate {d' : Disk} {front : List String} {name : String} {directory : Location}
    {entry : Entry} (hsteps : steps p.text = front ++ [name]) (hname : IsName name)
    (h : d.locate p = .ok (directory, name)) (hext : Extends d d')
    (he : d'.entry? (directory ++ [name]) = some entry) (hl : ∀ target, entry ≠ .link target) :
    d'.resolve follow p = .ok (directory ++ [name]) := by
  obtain ⟨htaken, -, -, hdirectory, links, hle, hleads⟩ :=
    (locate_eq_ok hsteps hname.ne_empty).mp h
  refine resolve_eq_ok.mpr ⟨htaken, links, hle, ?_⟩
  rw [hsteps, ← hext.start]
  exact (hleads.extends hext).append (List.cons_ne_nil _ _)
    (.name (hext.isDirectoryAt hdirectory) hname he hl (.done _))

end Resolve

end Disk

end Briefing

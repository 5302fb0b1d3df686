import Briefing.Proofs.Segmentation
import Briefing.Proofs.Spans

/-!
# The parts of an expansion

If programs leave the files alone, all of an expansion is fixed by the content and the files but
the values of parameters and what programs write. So a content has parts, some of which are filled
in later (`run_expand_parts`), and contents with different parts can be told apart by what is filled
in (`eq_of_fillAll`).

Cutting a content in two behind a break, or behind a gap and before a slash, cuts its segments in
two, unless one of them goes over the cut (`segments_cut`).
-/

namespace Briefing

/-- Programs answer as a function of the call, and leave the files alone. -/
def Host.IsSteady (host : Host) (answer : Call → Outcome) : Prop :=
  ∀ c s, host.run c s = (answer c, s.disk)

namespace Expansion

/-- A part of an expansion: a character, or what is filled in for a parameter or a command. -/
inductive Part
  | char (c : Char)
  | parameter (name : List Char)
  | output (command : List Char)
  deriving DecidableEq

/-- The parts of what a segment becomes. -/
def Segment.parts (base : Path) (d : Disk) : Segment → List Part
  | char c => [.char c]
  | parameter name => [.parameter name]
  | command text => [.output text]
  | reference written => (readReference base written d).toList.map .char

/-- The parts of what a content becomes. -/
def parts (base : Path) (d : Disk) (content : String) : List Part :=
  (segments none content.toList).flatMap (Segment.parts base d)

namespace Part

/-- The text of a part. -/
def fill (answer : Call → Outcome) (params : Params) (base : Path) : Part → String
  | char c => String.singleton c
  | parameter name =>
    (params.get? (String.ofList name)).getD (String.ofList (Segment.parameter name).source)
  | output command => (answer (.shell (String.ofList command) base)).output

/-- The text of parts, put together. -/
def fillAll (answer : Call → Outcome) (params : Params) (base : Path) (w : List Part) : String :=
  String.join (w.map (fill answer params base))

/-- The command that a part asks for. -/
def request? : Part → Option String
  | output command => some (String.ofList command)
  | _ => none

/-- The calls that parts ask for. -/
def calls (base : Path) (w : List Part) : List Call :=
  (w.filterMap request?).map (Call.shell · base)

end Part

open Briefing.Expansion.Part (fill fillAll)

/-! ## Filling in -/

section Fill

variable {host : Host} {answer : Call → Outcome} {params : Params} {base : Path} {d : Disk}

theorem fillAll_cons (p : Part) (w : List Part) :
    fillAll answer params base (p :: w)
      = fill answer params base p ++ fillAll answer params base w := by
  rw [fillAll, List.map_cons, String.join_cons]
  rfl

theorem fillAll_append (v w : List Part) :
    fillAll answer params base (v ++ w)
      = fillAll answer params base v ++ fillAll answer params base w := by
  simp [fillAll, String.join_append]

theorem calls_append (v w : List Part) :
    Part.calls base (v ++ w) = Part.calls base v ++ Part.calls base w := by
  simp [Part.calls]

theorem fillAll_chars (s : List Char) :
    fillAll answer params base (s.map .char) = String.ofList s := by
  induction s with
  | nil => rfl
  | cons c s ih =>
    rw [List.map_cons, fillAll_cons, ih]
    exact String.ext (by simp [fill])

theorem calls_parts (p : Segment) : Part.calls base (p.parts base d) = requests base [p] := by
  cases p with
  | reference written =>
    simp [Part.calls, Segment.parts, requests, Segment.request?, List.filterMap_map,
      Function.comp_def, Part.request?]
  | _ => rfl

theorem calls_flatMap_parts (ps : List Segment) :
    Part.calls base (ps.flatMap (Segment.parts base d)) = requests base ps := by
  induction ps with
  | nil => rfl
  | cons p ps ih =>
    rw [List.flatMap_cons, calls_append, calls_parts, ih, ← requests_append, List.singleton_append]

theorem Becomes.fill {p : Segment} {s s' : Session} {value : String} (hs : host.IsSteady answer)
    (h : Becomes host params base p s value s') :
    value = fillAll answer params base (p.parts base s.disk) ∧ s'.disk = s.disk := by
  cases h with
  | char c => exact ⟨by simp [fillAll, Segment.parts, Part.fill], rfl⟩
  | bound _ h => exact ⟨by simp [fillAll, Segment.parts, Part.fill, h], rfl⟩
  | unbound _ h => exact ⟨by simp [fillAll, Segment.parts, Part.fill, h], rfl⟩
  | command h =>
    rw [hs] at h
    obtain ⟨rfl, rfl⟩ := Prod.mk.inj h
    exact ⟨by simp [fillAll, Segment.parts, Part.fill], rfl⟩
  | readable h =>
    refine ⟨?_, rfl⟩
    rw [Segment.parts, fillAll_chars, String.ofList_toList, readReference_ok h]
  | unreadable h =>
    refine ⟨?_, rfl⟩
    rw [Segment.parts, fillAll_chars, String.ofList_toList, readReference_error h]

theorem BecomeAll.fill {ps : List Segment} {s s' : Session} {values : List String}
    (hs : host.IsSteady answer) (h : BecomeAll host params base ps s values s') :
    String.join values = fillAll answer params base (ps.flatMap (Segment.parts base s.disk))
      ∧ s'.disk = s.disk := by
  induction h with
  | nil s => exact ⟨rfl, rfl⟩
  | cons hp _ ih =>
    obtain ⟨hv, hd⟩ := hp.fill hs
    rw [hd] at ih
    rw [String.join_cons, List.flatMap_cons, fillAll_append, ← hv, ih.1]
    exact ⟨rfl, ih.2⟩

/-- Where programs answer as a function of the call and leave the files alone, an expansion comes
to its parts, filled in. -/
theorem run_expand_parts (hs : host.IsSteady answer) (params : Params) (base : Path)
    (content : String) (s : Session) :
    (expand host params base content).run s
      = (.ok (fillAll answer params base (parts base s.disk content)),
        { s with calls := s.calls ++ Part.calls base (parts base s.disk content) }) := by
  obtain ⟨values, s', hrun, h⟩ :=
    run_expandAfter host params base "" none content.toList s
  obtain ⟨hv, hd⟩ := h.fill hs
  obtain ⟨hc, hf⟩ := h.calls
  obtain ⟨d', calls', fetches'⟩ := s'
  obtain rfl : d' = s.disk := hd
  obtain rfl : calls' = _ := hc
  obtain rfl : fetches' = s.fetches := hf
  rw [expand, hrun, String.empty_append, hv, ← calls_flatMap_parts]
  rfl

/-! ## Telling parts apart -/

/-- Answers to calls that fill in `a` for the part `p`, and for all others the same. -/
def answersFor (base : Path) (p : Part) (a : Char) (c : Call) : Outcome :=
  ⟨true, if p.request?.map (Call.shell · base) = some c then String.singleton a else "b"⟩

/-- Parameters that fill in `a` for the part `p`, and nothing for any other. -/
def paramsFor (p : Part) (a : Char) : Params :=
  match p with
  | .parameter name => Table.empty.insert (String.ofList name) (String.singleton a)
  | _ => Table.empty

theorem fill_for {p : Part} (hp : ∀ c, p ≠ .char c) (a : Char) :
    fill (answersFor base p a) (paramsFor p a) base p = String.singleton a := by
  cases p with
  | char c => exact absurd rfl (hp c)
  | parameter name => simp [fill, paramsFor]
  | output command => simp [fill, answersFor, Part.request?]

theorem head_fill_for (base : Path) {p q : Part} (h : q ≠ p) :
    ∃ b, ∀ a, (fill (answersFor base p a) (paramsFor p a) base q).toList.head? = some b := by
  cases q with
  | char c => exact ⟨c, fun a => by simp [fill]⟩
  | parameter name =>
    refine ⟨'$', fun a => ?_⟩
    have hget : (paramsFor p a).get? (String.ofList name) = none := by
      cases p with
      | parameter name' =>
        have hne : name' ≠ name := by
          rintro rfl
          exact h rfl
        simp [paramsFor, String.ofList_inj, hne]
      | _ => rfl
    simp [fill, hget, Segment.source]
  | output command =>
    refine ⟨'b', fun a => ?_⟩
    have hcall : p.request?.map (Call.shell · base)
        ≠ some (.shell (String.ofList command) base) := by
      cases p with
      | output command' =>
        rintro hc
        have hne : command' = command := by simpa [Part.request?, String.ofList_inj] using hc
        exact h (hne ▸ rfl)
      | _ => simp [Part.request?]
    simp [fill, answersFor, hcall]

theorem exists_char_ne (c : Char) : ∃ a : Char, a ≠ c := by
  by_cases h : c = 'a'
  · exact ⟨'b', by simp [h]⟩
  · exact ⟨'a', fun h' => h h'.symm⟩

/-- Different parts can be filled in so that they start with different characters. -/
theorem exists_head_fill_ne (base : Path) {p q : Part} (h : p ≠ q) :
    ∃ (answer : Call → Outcome) (params : Params) (a b : Char), a ≠ b
      ∧ (fill answer params base p).toList.head? = some a
      ∧ (fill answer params base q).toList.head? = some b := by
  have hfill : ∀ {p q : Part}, (∀ c, p ≠ .char c) → q ≠ p →
      ∃ (answer : Call → Outcome) (params : Params) (a b : Char), a ≠ b
        ∧ (fill answer params base p).toList.head? = some a
        ∧ (fill answer params base q).toList.head? = some b := by
    intro p q hp hq
    obtain ⟨b, hb⟩ := head_fill_for base hq
    obtain ⟨a, ha⟩ := exists_char_ne b
    exact ⟨answersFor base p a, paramsFor p a, a, b, ha, by simp [fill_for hp], hb a⟩
  by_cases hp : ∀ c, p ≠ .char c
  · exact hfill hp h.symm
  · by_cases hq : ∀ c, q ≠ .char c
    · obtain ⟨answer, params, a, b, hab, ha, hb⟩ := hfill hq h
      exact ⟨answer, params, b, a, hab.symm, hb, ha⟩
    · obtain ⟨c, rfl⟩ := not_forall_not.mp hp
      obtain ⟨c', rfl⟩ := not_forall_not.mp hq
      refine ⟨answersFor base (.char c) c, Table.empty, c, c', ?_, by simp [fill], by simp [fill]⟩
      rintro rfl
      exact h rfl

theorem head_fillAll {p : Part} {a : Char}
    (h : (fill answer params base p).toList.head? = some a) (w : List Part) :
    (fillAll answer params base (p :: w)).toList.head? = some a := by
  rw [fillAll_cons, String.toList_append, List.head?_append, h]
  rfl

theorem exists_fillAll_ne_empty (base : Path) (p : Part) (w : List Part) :
    ∃ (answer : Call → Outcome) (params : Params), fillAll answer params base (p :: w) ≠ "" := by
  obtain ⟨q, hq⟩ : ∃ q : Part, p ≠ q := by
    by_cases h : p = .char 'a'
    · exact ⟨.char 'b', by simp [h]⟩
    · exact ⟨.char 'a', h⟩
  obtain ⟨answer, params, a, -, -, ha, -⟩ := exists_head_fill_ne base hq
  refine ⟨answer, params, fun h => ?_⟩
  have hhead := head_fillAll ha w
  rw [h] at hhead
  simp at hhead

/-- Parts that come to the same text whatever is filled in are the same. -/
theorem eq_of_fillAll (base : Path) : ∀ {v w : List Part},
    (∀ (answer : Call → Outcome) (params : Params),
      fillAll answer params base v = fillAll answer params base w) → v = w
  | [], [], _ => rfl
  | [], q :: w, h => by
    obtain ⟨answer, params, hne⟩ := exists_fillAll_ne_empty base q w
    exact absurd (h answer params).symm hne
  | p :: v, [], h => by
    obtain ⟨answer, params, hne⟩ := exists_fillAll_ne_empty base p v
    exact absurd (h answer params) hne
  | p :: v, q :: w, h => by
    by_cases hpq : p = q
    · subst hpq
      have hvw : ∀ (answer : Call → Outcome) (params : Params),
          fillAll answer params base v = fillAll answer params base w := by
        intro answer params
        have hp := h answer params
        rwa [fillAll_cons, fillAll_cons, String.append_right_inj] at hp
      rw [eq_of_fillAll base hvw]
    · obtain ⟨answer, params, a, b, hab, ha, hb⟩ := exists_head_fill_ne base hpq
      have hhead := head_fillAll ha v
      rw [h answer params, head_fillAll hb w] at hhead
      exact absurd (Option.some.inj hhead).symm hab

end Fill

/-! ## Cutting a content in two -/

open Briefing.Task (EndsIn isBreak isGap)

/-- One text ends and another one goes on where a task text is cut: behind a break, or behind a gap
and before a slash. -/
def IsCut (x y : List Char) : Prop :=
  EndsIn isBreak x ∨ EndsIn isGap x ∧ y.head? = some '/'

theorem IsCut.append {x y : List Char} (h : IsCut x y) (z : List Char) : IsCut x (y ++ z) := by
  rcases h with h | ⟨h, hy⟩
  · exact .inl h
  · exact .inr ⟨h, by rw [List.head?_append, hy]; rfl⟩

theorem IsCut.append_left {x y : List Char} (h : IsCut x y) (w : List Char) :
    IsCut (w ++ x) y := by
  rcases h with h | ⟨h, hy⟩
  · exact .inl (h.append w)
  · exact .inr ⟨h.append w, hy⟩

theorem IsCut.of_append {x y z : List Char} (h : IsCut (x ++ y) z) (hy : y ≠ []) : IsCut y z := by
  have hend : ∀ {p : Char → Bool}, EndsIn p (x ++ y) → EndsIn p y := by
    rintro p ⟨c, hc, hp⟩
    refine ⟨c, ?_, hp⟩
    rwa [List.getLast?_append_of_ne_nil _ hy] at hc
  rcases h with h | ⟨h, hz⟩
  · exact .inl (hend h)
  · exact .inr ⟨hend h, hz⟩

theorem cutClosed_cut (mark : Char) (s y : List Char) :
    (∃ t r, cutClosed mark s = some (t, r) ∧ cutClosed mark (s ++ y) = some (t, r ++ y))
      ∨ cutClosed mark s = none
        ∧ ∀ t r, cutClosed mark (s ++ y) = some (t, r) → r.length < y.length := by
  induction s with
  | nil =>
    refine .inr ⟨rfl, fun t r h => ?_⟩
    have hy := congrArg List.length (cutClosed_append h)
    simp only [List.nil_append, List.length_append, List.length_cons] at hy
    omega
  | cons c s ih =>
    by_cases hc : c = mark
    · exact .inl ⟨[], s, by simp [cutClosed, hc], by simp [cutClosed, hc]⟩
    · rcases ih with ⟨t, r, h, h'⟩ | ⟨h, h'⟩
      · exact .inl ⟨c :: t, r, by simp [cutClosed, hc, h], by simp [cutClosed, hc, h']⟩
      · refine .inr ⟨by simp [cutClosed, hc, h], fun t r ht => ?_⟩
        rw [List.cons_append, cutClosed, if_neg hc] at ht
        obtain ⟨⟨t', r'⟩, ht', he⟩ := Option.map_eq_some_iff.mp ht
        obtain ⟨-, rfl⟩ := Prod.mk.inj he
        exact h' t' r' ht'

/-- A path goes over a cut only if a backslash takes the blank before the cut along. -/
theorem pathStart_cut {s : List Char} (y : List Char) (hs : EndsIn endsPath s) :
    pathStart (s ++ y) = pathStart s ∨
      s.getLast? = some ' ' ∧ pathStart (s ++ y) = s ++ pathStart y := by
  obtain ⟨l, hl, hp⟩ := hs
  fun_induction pathStart s with
  | case1 s ih =>
    rcases s with _ | ⟨c, s⟩
    · exact .inr ⟨rfl, by simp [pathStart]⟩
    · rcases ih (by simpa using hl) with h | ⟨hlast, h⟩
      · exact .inl (by rw [List.cons_append, List.cons_append, pathStart, h])
      · refine .inr ⟨by simpa using hlast, ?_⟩
        rw [List.cons_append, List.cons_append, pathStart, h]
        rfl
  | case2 c s _ hc =>
    refine .inl ?_
    have hne : c ≠ '\\' := by
      rintro rfl
      exact absurd hc (by decide)
    rw [List.cons_append, pathStart]
    · simp [hc]
    · rintro _ rfl
      contradiction
  | case3 c s hne hc ih =>
    rcases s with _ | ⟨x, s⟩
    · obtain rfl : c = l := by simpa using hl
      exact absurd hp hc
    · have hcut : pathStart ((c :: x :: s) ++ y) = c :: pathStart ((x :: s) ++ y) := by
        rw [List.cons_append, pathStart]
        · simp [hc]
        · rintro _ hc' hx
          exact hne _ hc' (by rw [(List.cons.inj hx).1])
      rcases ih (by simpa using hl) with h | ⟨hlast, h⟩
      · exact .inl (by rw [hcut, h])
      · exact .inr ⟨by simpa using hlast, by rw [hcut, h]; rfl⟩
  | case4 => simp at hl

/-- What is found in a text with another one behind it is what is found in the text alone, or it
goes over into the other one. -/
def FoundAlike (y : List Char) (found both : Option (Segment × List Char)) : Prop :=
  both = found.map (fun n => (n.1, n.2 ++ y)) ∨ ∃ n, both = some n ∧ n.2.length < y.length

theorem foundAlike_closed (mark : Char) (f : List Char → Option Segment) (s y : List Char) :
    FoundAlike y ((cutClosed mark s).bind fun n => (f n.1).map (·, n.2))
      ((cutClosed mark (s ++ y)).bind fun n => (f n.1).map (·, n.2)) := by
  rcases cutClosed_cut mark s y with ⟨t, r, h, h'⟩ | ⟨h, h'⟩
  · refine .inl ?_
    cases hf : f t <;> simp [h, h', hf]
  · rcases hc : cutClosed mark (s ++ y) with _ | ⟨t, r⟩
    · exact .inl (by simp [h])
    · rcases hf : f t with _ | p
      · exact .inl (by simp [h, hf])
      · exact .inr ⟨(p, r), by simp [hf], h' t r hc⟩

theorem parameter?_brace (s : List Char) : parameter? ('\x7b' :: s)
    = (cutClosed '\x7d' s).bind fun n =>
      (if isParameterName n.1 then some (Segment.parameter n.1) else none).map (·, n.2) := by
  rw [parameter?]
  rcases cutClosed '\x7d' s with _ | ⟨t, r⟩
  · rfl
  · dsimp only [Option.bind_some]
    split <;> rfl

theorem command?_backtick (s : List Char) : command? ('`' :: s)
    = (cutClosed '`' s).bind fun n =>
      (if n.1.all Text.isWhite then none else some (Segment.command n.1)).map (·, n.2) := by
  rw [command?]
  rcases cutClosed '`' s with _ | ⟨t, r⟩
  · rfl
  · dsimp only [Option.bind_some]
    split <;> rfl

theorem parameter?_cut {s : List Char} (hs : s ≠ []) (y : List Char) :
    FoundAlike y (parameter? s) (parameter? (s ++ y)) := by
  obtain ⟨c, s, rfl⟩ := List.exists_cons_of_ne_nil hs
  by_cases hc : c = '\x7b'
  · rw [hc, List.cons_append, parameter?_brace, parameter?_brace]
    exact foundAlike_closed _ (fun t => if isParameterName t then some (.parameter t) else none) s y
  · exact .inl (by simp [parameter?, hc])

theorem command?_cut {s : List Char} (hs : s ≠ []) (y : List Char) :
    FoundAlike y (command? s) (command? (s ++ y)) := by
  obtain ⟨c, s, rfl⟩ := List.exists_cons_of_ne_nil hs
  by_cases hc : c = '`'
  · rw [hc, List.cons_append, command?_backtick, command?_backtick]
    exact foundAlike_closed _ (fun t => if t.all Text.isWhite then none else some (.command t)) s y
  · exact .inl (by simp [command?, hc])

/-- What is true of every gap and break is true of the last character before a cut. -/
theorem IsCut.endsIn {x y : List Char} (h : IsCut x y) {p : Char → Bool}
    (hp : [' ', '\t', '\n', '\r'].all p = true) : EndsIn p x := by
  simp only [List.all_cons, List.all_nil, Bool.and_eq_true] at hp
  rcases h with ⟨c, hc, hb⟩ | ⟨⟨c, hc, hg⟩, -⟩
  · refine ⟨c, hc, ?_⟩
    simp only [isBreak, Bool.or_eq_true, decide_eq_true_eq] at hb
    rcases hb with rfl | rfl
    · exact hp.2.2.1
    · exact hp.2.2.2.1
  · refine ⟨c, hc, ?_⟩
    simp only [isGap, Bool.or_eq_true, decide_eq_true_eq] at hg
    rcases hg with rfl | rfl
    · exact hp.1
    · exact hp.2.1

theorem IsCut.endsIn_endsPath {x y : List Char} (h : IsCut x y) : EndsIn endsPath x :=
  h.endsIn (by decide)

theorem IsCut.ne_nil {x y : List Char} (h : IsCut x y) : x ≠ [] := by
  obtain ⟨c, hc, -⟩ := h.endsIn_endsPath
  rintro rfl
  simp at hc

theorem IsCut.slash {x y : List Char} (h : IsCut x y) (hx : x.getLast? = some ' ') :
    ∃ z, y = '/' :: z := by
  rcases h with ⟨c, hc, hb⟩ | ⟨-, hy⟩
  · obtain rfl : ' ' = c := Option.some.inj (hx.symm.trans hc)
    exact absurd hb (by decide)
  · exact List.head?_eq_some_iff.mp hy

theorem lt_length_dropEnd {p : Char → Bool} {a : Char} (ha : p a = false) (s t : List Char) :
    s.length < (Text.dropEnd p (s ++ a :: t)).length := by
  rw [Text.dropEnd, List.length_reverse, List.reverse_append, List.reverse_cons, List.append_assoc,
    List.dropWhile_append]
  split
  · simp [ha]
  · simp only [List.length_append, List.length_reverse, List.length_singleton]
    omega

theorem reference?_cut (before : Option Char) {s y : List Char} (h : IsCut s y) :
    FoundAlike y (reference? before s) (reference? before (s ++ y)) := by
  have hhead : (s ++ y).head? = s.head? := List.head?_append_of_ne_nil _ h.ne_nil
  by_cases hc : (before.any isWordChar || !s.head?.any startsPath) = true
  · exact .inl (by rw [reference?, reference?, hhead, if_pos hc, if_pos hc]; rfl)
  · rw [reference?, reference?, hhead, if_neg hc, if_neg hc]
    rcases pathStart_cut y h.endsIn_endsPath with hp | ⟨hlast, hp⟩
    · have hw : writtenPath (s ++ y) = writtenPath s := by rw [writtenPath, hp, writtenPath]
      refine .inl ?_
      rw [hw]
      dsimp only
      split
      · rfl
      · rw [List.drop_append_of_le_length (isPrefix_writtenPath s).length_le]
        rfl
    · obtain ⟨z, rfl⟩ := h.slash hlast
      have hz : pathStart ('/' :: z) = '/' :: pathStart z := by
        rw [pathStart]
        · rfl
        · simp
      have hw := lt_length_dropEnd (show isTrailing '/' = false by decide) s (pathStart z)
      rw [← hz, ← hp] at hw
      have hne : writtenPath (s ++ '/' :: z) ≠ [] := List.ne_nil_of_length_pos (by
        rw [writtenPath]
        omega)
      refine .inr ⟨_, if_neg (by simpa using hne), ?_⟩
      rw [List.length_drop, List.length_append, List.length_cons, writtenPath]
      omega

theorem placeholder?_cut (before : Option Char) {c : Char} {s y : List Char}
    (h : IsCut (c :: s) y) :
    FoundAlike y (placeholder? before c s) (placeholder? before c (s ++ y)) := by
  rcases s with _ | ⟨x, s⟩
  · obtain ⟨l, hl, hp⟩ := h.endsIn_endsPath
    obtain rfl : c = l := by simpa using hl
    refine .inl ?_
    have hne : c ≠ '$' ∧ c ≠ '!' ∧ c ≠ '@' := by
      refine ⟨?_, ?_, ?_⟩ <;> rintro rfl <;> exact absurd hp (by decide)
    simp [placeholder?, hne]
  · have hs : x :: s ≠ [] := List.cons_ne_nil _ _
    unfold placeholder?
    split_ifs
    · exact parameter?_cut hs y
    · exact command?_cut hs y
    · exact reference?_cut before (IsCut.of_append (List.singleton_append ▸ h) hs)
    · exact .inl rfl

/-- A segment is what it is without the text behind the cut, or it goes over the cut. -/
theorem next_cut (before : Option Char) {c : Char} {s y : List Char} (h : IsCut (c :: s) y) :
    next before c (s ++ y) = ((next before c s).1, (next before c s).2 ++ y)
      ∨ ∃ p r, placeholder? before c (s ++ y) = some (p, r) ∧ r.length < y.length := by
  rcases placeholder?_cut before h with hfound | ⟨⟨p, r⟩, hn, hlt⟩
  · refine .inl ?_
    unfold next
    rw [hfound]
    cases placeholder? before c s <;> rfl
  · exact .inr ⟨p, r, hn, hlt⟩

theorem segments_of_not_word {before : Option Char} (h : before.any isWordChar = false)
    (s : List Char) : segments before s = segments none s := by
  rcases s with _ | ⟨c, s⟩
  · rw [segments, segments]
  · have hp : placeholder? before c s = placeholder? none c s := by
      simp [placeholder?, reference?, h]
    rw [segments, segments]
    simp [next, hp]

theorem IsCut.not_word {x y : List Char} (h : IsCut x y) : x.getLast?.any isWordChar = false := by
  have hend : EndsIn (fun c => !isWordChar c) x := h.endsIn (by decide)
  obtain ⟨c, hc, hw⟩ := hend
  rw [Option.mem_def.mp hc]
  simpa using hw

theorem eq_nil_of_flatMap_source {ps : List Segment} (h : ps.flatMap Segment.source = []) :
    ps = [] := by
  rcases ps with _ | ⟨p, ps⟩
  · rfl
  · have := source_length_pos p
    simp_all

/-- A text and one behind it have the segments that they have together, if none of those goes over
the cut. -/
theorem segments_cut {x y : List Char} (h : IsCut x y) {before : Option Char}
    {ps qs : List Segment} (hps : ps.flatMap Segment.source = x)
    (hs : segments before (x ++ y) = ps ++ qs) :
    segments before x = ps ∧ segments none y = qs := by
  induction ps generalizing x before with
  | nil => exact absurd hps.symm h.ne_nil
  | cons p ps ih =>
    obtain ⟨c, s, rfl⟩ := List.exists_cons_of_ne_nil h.ne_nil
    rw [List.cons_append, segments] at hs
    obtain ⟨hp, hrest⟩ := List.cons.inj hs
    have happend := next_append before c (s ++ y)
    rw [hp] at happend
    rcases next_cut before h with hnext | ⟨q, r, hn, hlt⟩
    · have hrest' := next_append before c s
      rw [hnext] at hp hrest
      obtain rfl : (next before c s).1 = p := hp
      generalize hx : (next before c s).2 = x at hrest hrest'
      have hsource : ps.flatMap Segment.source = x := by
        rw [List.flatMap_cons, hrest'] at hps
        exact List.append_cancel_left hps
      rw [segments]
      simp only [hx]
      by_cases hnil : x = []
      · subst hnil
        obtain rfl := eq_nil_of_flatMap_source hsource
        rw [hrest', List.append_nil] at h
        rw [segments]
        rw [segments_of_not_word (h.not_word)] at hrest
        exact ⟨rfl, hrest⟩
      · rw [hrest'] at h
        obtain ⟨hseg, hqs⟩ := ih (h.of_append hnil) hsource hrest
        exact ⟨by rw [hseg], hqs⟩
    · -- the segment would be longer than the text it is in
      have hnext : next before c (s ++ y) = (q, r) := by rw [next, hn]; rfl
      rw [hnext] at happend
      have hlength := congrArg List.length happend
      have hsource := congrArg List.length hps
      simp only [List.flatMap_cons, List.length_cons, List.length_append] at hlength hsource
      omega

/-- Texts that are cut one behind the other have the segments that they have together, if none of
those goes over a cut. -/
theorem segments_cuts : ∀ {texts : List (List Char)} {pss : List (List Segment)}
    {before : Option Char}, texts.IsChain IsCut → pss.map (·.flatMap Segment.source) = texts →
      before.any isWordChar = false → segments before texts.flatten = pss.flatten →
      texts.map (segments none) = pss
  | [], pss, _, _, hps, _, _ => by simpa using hps
  | [x], pss, before, _, hps, hb, hs => by
    obtain ⟨ps, rfl, -⟩ := List.map_eq_singleton_iff.mp hps
    rw [List.flatten_singleton, List.flatten_singleton, segments_of_not_word hb] at hs
    rw [List.map_singleton, hs]
  | x :: y :: texts, pss, before, hc, hps, hb, hs => by
    obtain ⟨ps, pss, rfl, hx, hps⟩ := List.map_eq_cons_iff.mp hps
    obtain ⟨hxy, hc⟩ := List.isChain_cons_cons.mp hc
    have hcut : IsCut x (y :: texts).flatten := hxy.append texts.flatten
    rw [List.flatten_cons, List.flatten_cons] at hs
    obtain ⟨hseg, hrest⟩ := segments_cut hcut hx hs
    rw [segments_of_not_word hb] at hseg
    rw [List.map_cons, segments_cuts hc hps rfl hrest, hseg]

end Expansion

end Briefing

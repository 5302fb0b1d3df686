import Briefing.Expansion.Basic
import Mathlib.Tactic.Common

/-!
# An expansion follows the segments of its content

Expansion reads a content once, from left to right, and goes on behind each placeholder whatever
was put in its place. So where it looks things up is fixed by the content alone: it is what the
segments of the content become, one after the other (`run_expandAfter`), and the commands it asks
for are those that stand in the content, in their order (`BecomeAll.calls`).
-/

namespace Briefing.Expansion

/-- The command that a segment asks for. -/
def Segment.request? : Segment → Option String
  | .command text => some (String.ofList text)
  | _ => none

/-- The calls for the commands among segments, in their order. -/
def requests (base : Path) (ps : List Segment) : List Call :=
  (ps.filterMap Segment.request?).map (Call.shell · base)

theorem requests_append (base : Path) (ps qs : List Segment) :
    requests base (ps ++ qs) = requests base ps ++ requests base qs := by
  simp [requests]

section Becomes

variable (host : Host) (params : Params) (base : Path)

/-- What a segment becomes in a session, and the session then: a character stays, a parameter
becomes its value, a command what it writes, a reference the block of its file. What has no value
and what is not readable stays as it is written. -/
inductive Becomes : Segment → Session → String → Session → Prop
  | char (c : Char) (s : Session) : Becomes (.char c) s (String.singleton c) s
  | bound {name : List Char} {value : String} (s : Session)
      (h : params.get? (String.ofList name) = some value) : Becomes (.parameter name) s value s
  | unbound {name : List Char} (s : Session) (h : params.get? (String.ofList name) = none) :
      Becomes (.parameter name) s (String.ofList (Segment.parameter name).source) s
  | command {text : List Char} {s : Session} {outcome : Outcome} {d : Disk}
      (h : host.run (.shell (String.ofList text) base) s = (outcome, d)) :
      Becomes (.command text) s outcome.output
        ⟨d, s.calls ++ [.shell (String.ofList text) base], s.fetches⟩
  | readable {written : List Char} {s : Session} {body : String}
      (h : s.disk.readText (base.join (String.ofList (unescapeBlanks written))) = .ok body) :
      Becomes (.reference written) s (fileBlock (String.ofList (unescapeBlanks written)) body) s
  | unreadable {written : List Char} {s : Session} {fault : Files.Fault}
      (h : s.disk.readText (base.join (String.ofList (unescapeBlanks written))) = .error fault) :
      Becomes (.reference written) s (String.ofList (Segment.reference written).source) s

/-- What segments become in a session, one after the other, and the session then. -/
inductive BecomeAll : List Segment → Session → List String → Session → Prop
  | nil (s : Session) : BecomeAll [] s [] s
  | cons {p : Segment} {ps : List Segment} {value : String} {values : List String}
      {s s₁ s₂ : Session} (h : Becomes host params base p s value s₁)
      (hs : BecomeAll ps s₁ values s₂) : BecomeAll (p :: ps) s (value :: values) s₂

theorem run_expandSegment (p : Segment) (s : Session) :
    ∃ value s', (expandSegment host params base p).run s = (.ok value, s')
      ∧ Becomes host params base p s value s' := by
  cases p with
  | char c => exact ⟨_, _, rfl, .char c s⟩
  | parameter name =>
    rcases hv : params.get? (String.ofList name) with _ | value
    · exact ⟨_, s, by simp [expandSegment, hv], .unbound s hv⟩
    · exact ⟨_, s, by simp [expandSegment, hv], .bound s hv⟩
  | command text => exact ⟨_, _, rfl, .command rfl⟩
  | reference written =>
    rcases hb : s.disk.readText (base.join (String.ofList (unescapeBlanks written)))
      with fault | body
    · exact ⟨_, s, by simp [expandSegment, readReference_error hb], .unreadable hb⟩
    · exact ⟨_, s, by simp [expandSegment, readReference_ok hb], .readable hb⟩

end Becomes

variable {host : Host} {params : Params} {base : Path}

theorem segments_cons_none {before : Option Char} {c : Char} {s : List Char}
    (h : placeholder? before c s = none) :
    segments before (c :: s) = .char c :: segments (some c) s := by
  rw [segments]
  simp [next, h, Segment.source]

theorem segments_cons_some {before : Option Char} {c : Char} {s rest : List Char} {p : Segment}
    (h : placeholder? before c s = some (p, rest)) :
    segments before (c :: s) = p :: segments p.source.getLast? rest := by
  rw [segments]
  simp [next, h]

/-- The expansion of a text is what its segments become, put together. -/
theorem run_expandAfter (host : Host) (params : Params) (base : Path) (done : String)
    (before : Option Char) (text : List Char) (s : Session) :
    ∃ values s', (expandAfter host params base done before text).run s
        = (.ok (done ++ String.join values), s')
      ∧ BecomeAll host params base (segments before text) s values s' := by
  fun_induction expandAfter host params base done before text generalizing s with
  | case1 done before =>
    refine ⟨[], s, by simp, ?_⟩
    rw [segments]
    exact .nil s
  | case2 done before c text h ih =>
    obtain ⟨values, s', hrun, hall⟩ := ih s
    refine ⟨String.singleton c :: values, s', ?_, ?_⟩
    · rw [hrun, String.join_cons, ← String.append_assoc, String.append_singleton]
    · rw [segments_cons_none h]
      exact .cons (.char c s) hall
  | case3 done before c text p rest h ih =>
    obtain ⟨value, s₁, hp, hb⟩ := run_expandSegment host params base p s
    obtain ⟨values, s', hrun, hall⟩ := ih value s₁
    refine ⟨value :: values, s', ?_, ?_⟩
    · rw [Activity.run_bind, hp]
      simp only [hrun, String.join_cons, String.append_assoc]
    · rw [segments_cons_some h]
      exact .cons hb hall

theorem Becomes.calls {p : Segment} {s s' : Session} {value : String}
    (h : Becomes host params base p s value s') :
    s'.calls = s.calls ++ requests base [p] ∧ s'.fetches = s.fetches := by
  cases h <;> simp [requests, Segment.request?]

/-- Of the calls in a session only those for the commands among the segments are new. -/
theorem BecomeAll.calls {ps : List Segment} {s s' : Session} {values : List String}
    (h : BecomeAll host params base ps s values s') :
    s'.calls = s.calls ++ requests base ps ∧ s'.fetches = s.fetches := by
  induction h with
  | nil s => simp [requests]
  | @cons p ps _ _ _ _ _ h _ ih =>
    rw [ih.1, ih.2, h.calls.1, h.calls.2, List.append_assoc, ← requests_append]
    exact ⟨rfl, rfl⟩

/-- A content is cut into pieces by what is written in it alone. Whatever the parameters, the
machine and its files are, its expansion puts together what the pieces become in their order, and
asks for the commands among them in their order and for nothing else. -/
theorem expand_segmentation (content : String) :
    ∃ pieces : List Segment, pieces.flatMap Segment.source = content.toList
      ∧ ∀ (host : Host) (params : Params) (base : Path) (s : Session), ∃ values s',
        (expand host params base content).run s = (.ok (String.join values), s')
          ∧ BecomeAll host params base pieces s values s'
          ∧ s'.calls = s.calls ++ requests base pieces ∧ s'.fetches = s.fetches := by
  refine ⟨segments none content.toList, source_segments none _, fun host params base s => ?_⟩
  obtain ⟨values, s', hrun, hall⟩ :=
    run_expandAfter host params base "" none content.toList s
  refine ⟨values, s', ?_, hall, hall.calls⟩
  rw [expand, hrun, String.empty_append]

end Briefing.Expansion

import Briefing.Proofs.Downloads

/-!
# Which sources are remote

A source is judged twice: a marker anywhere in it makes it remote, and then the fetcher looks at
how it begins. The two agree on a source that begins as an address does (`IsAddress.isFetchable`,
`isLocal_address_iff`), but for the address of a repository that begins with `git@` and has no
marker, which is taken for a local path. Search roots take their sources in turn, hand the remote
ones over until a fetch fails, and use the local ones in place (`resolve_hands_over`).
-/

namespace Briefing

namespace Source

/-! ## How sources begin -/

section Forms

variable {source : Source}

/-- A source with the end of a scheme or the end of a marker in it. -/
def HasMarker (source : Source) : Prop :=
  "://".toList <:+: source.toList ∨ "::".toList <:+: source.toList

/-- How a source begins that the fetcher knows by its beginning. -/
def addressStarts : List String := ["git::", "git@", "http://", "https://"]

/-- A source that begins as an address. -/
def IsAddress (source : Source) : Prop := ∃ start ∈ addressStarts, start.toList <+: source.toList

/-- A source that is written as a place on this machine. -/
def IsPlace (source : Source) : Prop :=
  fileScheme.toList <+: source.toList ∨ ¬HasMarker source ∧ ¬IsAddress source

/-- The address of a repository that is known by its beginning only. -/
def IsBareAddress (source : Source) : Prop := "git@".toList <+: source.toList ∧ ¬HasMarker source

theorem startsWith_iff {start text : String} :
    startsWith start text = true ↔ start.toList <+: text.toList := List.isPrefixOf_iff_prefix

theorem contains_iff (needle : List Char) :
    ∀ text : List Char, Text.contains needle text = true ↔ needle <:+: text
  | [] => by simp [Text.contains, List.isEmpty_iff]
  | c :: text => by
    rw [Text.contains, Bool.or_eq_true, List.isPrefixOf_iff_prefix, contains_iff needle text,
      List.infix_cons_iff]

theorem isLocal_iff :
    isLocal source = true ↔ fileScheme.toList <+: source.toList ∨ ¬HasMarker source := by
  rw [isLocal, Bool.or_eq_true, Bool.and_eq_true, Bool.not_eq_true', Bool.not_eq_true',
    ← Bool.not_eq_true, ← Bool.not_eq_true, contains_iff, contains_iff, startsWith_iff, HasMarker,
    not_or]

theorem isLocal_of_isPlace (h : IsPlace source) : isLocal source = true :=
  isLocal_iff.mpr (h.imp_right And.left)

/-- No address begins as a local one does. -/
theorem IsAddress.not_fileScheme (h : IsAddress source) :
    ¬fileScheme.toList <+: source.toList := by
  obtain ⟨start, hstart, hbegins⟩ := h
  intro hfile
  have hapart : ∀ start ∈ addressStarts, ¬start.toList <+: fileScheme.toList
      ∧ ¬fileScheme.toList <+: start.toList := by decide
  rcases List.prefix_or_prefix_of_prefix hbegins hfile with hsame | hsame
  · exact (hapart start hstart).1 hsame
  · exact (hapart start hstart).2 hsame

theorem IsAddress.hasMarker (h : IsAddress source) (hgit : ¬"git@".toList <+: source.toList) :
    HasMarker source := by
  obtain ⟨start, hstart, hbegins⟩ := h
  simp only [addressStarts, List.mem_cons, List.not_mem_nil, or_false] at hstart
  rcases hstart with rfl | rfl | rfl | rfl
  · exact .inr (.trans ⟨"git".toList, [], rfl⟩ hbegins.isInfix)
  · exact absurd hbegins hgit
  · exact .inl (.trans ⟨"http".toList, [], rfl⟩ hbegins.isInfix)
  · exact .inl (.trans ⟨"https".toList, [], rfl⟩ hbegins.isInfix)

/-- An address is taken for local if it is a bare one. -/
theorem isLocal_address_iff (h : IsAddress source) :
    isLocal source = true ↔ IsBareAddress source := by
  rw [isLocal_iff, or_iff_right h.not_fileScheme, IsBareAddress]
  refine ⟨fun hnone => ⟨?_, hnone⟩, And.right⟩
  by_contra hgit
  exact hnone (h.hasMarker hgit)

theorem isLocal_of_isBareAddress (h : IsBareAddress source) : isLocal source = true :=
  isLocal_iff.mpr (.inr h.2)

/-- The fetcher knows every address. -/
theorem IsAddress.isFetchable (h : IsAddress source) :
    (repository? source).isSome = true ∨ isHttp source = true := by
  obtain ⟨start, hstart, hbegins⟩ := h
  simp only [addressStarts, List.mem_cons, List.not_mem_nil, or_false] at hstart
  have hstarts := startsWith_iff.mpr hbegins
  rcases hstart with rfl | rfl | rfl | rfl
  · obtain ⟨rest, hrest⟩ := hbegins
    left
    rw [repository?, dropStart?, ← hrest]
    rfl
  · left
    rw [repository?, hstarts, Bool.true_or, if_pos rfl]
    cases dropStart? "git::" source <;> rfl
  · right
    rw [isHttp, hstarts, Bool.true_or]
  · right
    rw [isHttp, hstarts, Bool.or_true]

end Forms

end Source

namespace SearchRoots

open Source

/-! ## Taking sources in turn -/

section Resolve

variable {host : Host} {base downloads : Path}

/-- The source and the destination of what is fetched as a directory. -/
def order? : Fetch → Option (Source × Path)
  | .directory source destination _ => some (source, destination)
  | .text _ => none

/-- The fetch of a numbered remote source fails, whatever was done before. -/
def FailsAt (host : Host) (downloads : Path) (source : Source) (i : ℕ) (e : Error) : Prop :=
  isLocal source = false
    ∧ ∃ s, (host.fetchDirectory source (destination downloads i) s).1 = .error e

/-- Sources, numbered from `k`, are taken in turn as far as they are reached: the remote ones are
handed over, each with its place. If no fetch fails, all are reached and each has its root; else
the last one reached is the one whose fetch fails. -/
structure Taken (host : Host) (base downloads : Path) (k : ℕ) (sources reached : List Source)
    (s : Session) (ended : Except Error (List Path) × Session) : Prop where
  isPrefix : reached <+: sources
  log : ∃ fetches, ended.2.fetches = s.fetches ++ fetches
    ∧ fetches.map order? = (remotes downloads k reached).map some
  roots : ∀ roots, ended.1 = .ok roots →
    reached = sources ∧ roots = (sources.zipIdx k).map (rootPath base downloads)
  failure : ∀ e, ended.1 = .error e → ∃ front source,
    reached = front ++ [source] ∧ FailsAt host downloads source (k + front.length) e

variable {k : ℕ} {source : Source} {sources reached : List Source} {s s₁ : Session}
  {ended : Except Error (List Path) × Session}

/-- What is taken behind a source that did not fail. -/
theorem Taken.cons {asked : List Fetch}
    (h : Taken host base downloads (k + 1) sources reached s₁ ended) (source : Source)
    (hlog : s₁.fetches = s.fetches ++ asked)
    (hasked : asked.map order? = (remotes downloads k [source]).map some) :
    Taken host base downloads k (source :: sources) (source :: reached) s
      (ended.1.map (rootPath base downloads (source, k) :: ·), ended.2) := by
  obtain ⟨hbegins, ⟨fetches, hfetches, horders⟩, hroots, hfailure⟩ := h
  refine ⟨List.cons_prefix_cons.mpr ⟨rfl, hbegins⟩, ⟨asked ++ fetches, ?_, ?_⟩, ?_, ?_⟩
  · rw [hfetches, hlog, List.append_assoc]
  · rw [List.map_append, hasked, horders, remotes_cons, remotes_cons, List.map_append,
      List.map_append]
    simp [remotes]
  · intro roots hok
    rcases hanswer : ended.1 with e | roots'
    · rw [hanswer] at hok
      cases hok
    · rw [hanswer] at hok
      obtain rfl := Except.ok.inj hok
      obtain ⟨rfl, rfl⟩ := hroots roots' hanswer
      exact ⟨rfl, rfl⟩
  · intro e herror
    rcases hanswer : ended.1 with e' | roots'
    · rw [hanswer] at herror
      obtain rfl := Except.error.inj herror
      obtain ⟨front, last, rfl, hfails⟩ := hfailure e' hanswer
      refine ⟨source :: front, last, rfl, ?_⟩
      rwa [List.length_cons, ← Nat.add_assoc, Nat.add_right_comm]
    · rw [hanswer] at herror
      cases herror

theorem run_rootsOf (host : Host) (base downloads : Path) : ∀ (sources : List Source) (k : ℕ)
    (s : Session), ∃ reached, Taken host base downloads k sources reached s
      (((sources.zipIdx k).mapM (rootOf host base downloads)).run s)
  | [], k, s => ⟨[], List.prefix_rfl, ⟨[], (List.append_nil _).symm, rfl⟩,
      by rintro _ ⟨⟩; exact ⟨rfl, rfl⟩, by rintro _ ⟨⟩⟩
  | source :: sources, k, s => by
    rw [List.zipIdx_cons, List.mapM_cons, Activity.run_bind, rootOf]
    cases hlocal : isLocal source with
    | true =>
      obtain ⟨reached, htaken⟩ := run_rootsOf host base downloads sources (k + 1) s
      have hcons := htaken.cons source (List.append_nil s.fetches).symm
        (by simp [remotes, hlocal])
      refine ⟨source :: reached, ?_⟩
      simp only [if_true, Activity.run_pure, Activity.run_bind]
      rw [rootPath, hlocal, if_pos rfl] at hcons
      rcases hrun : ((sources.zipIdx (k + 1)).mapM (rootOf host base downloads)).run s
        with ⟨e | roots, s'⟩ <;> rw [hrun] at hcons <;> exact hcons
    | false =>
      simp only [Bool.false_eq_true, if_false, Activity.run_bind]
      rcases hfetch : (host.fetch source (destination downloads k)).run s with ⟨e | _, s₁⟩
      · rw [run_fetch] at hfetch
        obtain ⟨hfails, rfl⟩ := Prod.mk.inj hfetch
        refine ⟨[source], ⟨List.cons_prefix_cons.mpr ⟨rfl, List.nil_prefix⟩, ⟨_, rfl, ?_⟩,
          by rintro _ ⟨⟩, fun e' h => ?_⟩⟩
        · simp [remotes, hlocal, order?]
        · obtain rfl := Except.error.inj h
          exact ⟨[], source, rfl, hlocal, s, hfails⟩
      · rw [run_fetch] at hfetch
        obtain ⟨-, rfl⟩ := Prod.mk.inj hfetch
        obtain ⟨reached, htaken⟩ := run_rootsOf host base downloads sources (k + 1)
          ⟨(host.fetchDirectory source (destination downloads k) s).2, s.calls,
            s.fetches ++ [.directory source (destination downloads k)
              (s.disk.pathExists (destination downloads k))]⟩
        have hcons := htaken.cons source (s := s) rfl (by simp [remotes, hlocal, order?])
        refine ⟨source :: reached, ?_⟩
        simp only [Activity.run_pure]
        rw [rootPath, hlocal] at hcons
        rcases hrun : ((sources.zipIdx (k + 1)).mapM (rootOf host base downloads)).run _
          with ⟨e | roots, s'⟩ <;> rw [hrun] at hcons <;> exact hcons

theorem map_rootPath_of_allLocal (base downloads : Path) (h : sources.all isLocal = true) :
    sources.zipIdx.map (rootPath base downloads) = sources.map (localPath · base) := by
  conv_rhs => rw [← List.zipIdx_map_fst 0 sources, List.map_map]
  refine List.map_congr_left fun x hx => ?_
  rw [rootPath, if_pos (List.all_eq_true.mp h _ (List.fst_mem_of_mem_zipIdx hx))]
  rfl

/-- Sources are resolved by taking them in turn, unless no download directory can be made. -/
theorem run_resolve (host : Host) (sources : List Source) (base : Path) (s : Session) :
    (∃ fault, sources.all isLocal = false
        ∧ s.disk.makeDirectory (placeFor host s.disk) = .error fault
        ∧ (resolve host sources base).run s
          = (.error (.noTemporary (placeFor host s.disk) fault), s))
      ∨ ∃ downloads reached, Taken host base downloads 0 sources reached s
        (((resolve host sources base).run s).1.map SearchRoots.roots,
          ((resolve host sources base).run s).2) := by
  rw [resolve]
  cases hlocal : sources.all isLocal with
  | true =>
    refine .inr ⟨base, sources, List.prefix_rfl, ⟨[], (List.append_nil _).symm, ?_⟩, ?_,
      by rintro _ ⟨⟩⟩
    · rw [remotes_of_allLocal base 0 hlocal]
      rfl
    · rintro _ ⟨⟩
      exact ⟨rfl, (map_rootPath_of_allLocal base base hlocal).symm⟩
  | false =>
    simp only [Bool.false_eq_true, if_false]
    rw [Activity.run_bind]
    rcases run_makeDownloads host s with ⟨fault, hmake, hrun⟩ | ⟨location, d, -, -, -, -, hrun⟩
    · rw [hrun]
      exact .inl ⟨fault, trivial, hmake, rfl⟩
    · rw [hrun]
      dsimp only
      generalize placeFor host s.disk = path
      obtain ⟨reached, htaken⟩ := run_rootsOf host base path sources 0 { s with disk := d }
      rw [Activity.run] at htaken
      refine .inr ⟨path, reached, ?_⟩
      rw [Activity.run_bind, Activity.run, removingOnFailure]
      rcases hroots : sources.zipIdx.mapM (rootOf host base path) { s with disk := d }
        with ⟨e | roots, s'⟩ <;> rw [hroots] at htaken
      · exact ⟨htaken.isPrefix, htaken.log, by rintro _ ⟨⟩, htaken.failure⟩
      · exact ⟨htaken.isPrefix, htaken.log, htaken.roots, by rintro _ ⟨⟩⟩

theorem isLocal_of_mem_remotes {x : Source × Path} (h : x ∈ remotes downloads k sources) :
    isLocal x.1 = false := by
  obtain ⟨⟨source, i⟩, -, hx⟩ := List.mem_filterMap.mp h
  dsimp only at hx
  split_ifs at hx with hlocal
  obtain rfl := Option.some.inj hx
  simpa using hlocal

theorem mem_remotes {i : ℕ} (hget : sources[i]? = some source) (hremote : isLocal source = false) :
    (source, destination downloads i) ∈ remotes downloads 0 sources :=
  List.mem_filterMap.mpr ⟨(source, i), List.mem_zipIdx_iff_getElem?.mpr hget, by simp [hremote]⟩

/-- The fetcher knows every address. Sources are taken in turn, and each address that is reached is
handed to the fetcher and used where it is fetched to, but for bare ones; those and the sources
that are written as places are never handed over and used as paths. -/
theorem resolve_hands_over (host : Host) (sources : List Source) (base : Path) (s : Session) :
    (∀ source, IsAddress source → (repository? source).isSome = true ∨ isHttp source = true)
      ∧ let ended := (resolve host sources base).run s
        (∃ fault, sources.all isLocal = false
          ∧ s.disk.makeDirectory (placeFor host s.disk) = .error fault
          ∧ ended = (.error (.noTemporary (placeFor host s.disk) fault), s))
        ∨ ∃ downloads reached,
          Taken host base downloads 0 sources reached s (ended.1.map SearchRoots.roots, ended.2)
          ∧ ∀ i source, sources[i]? = some source →
            (IsAddress source → ¬IsBareAddress source →
              (i < reached.length →
                (source, destination downloads i) ∈ remotes downloads 0 reached)
              ∧ ∀ roots, ended.1 = .ok roots → roots.roots[i]? = some (destination downloads i))
            ∧ (IsPlace source ∨ IsBareAddress source →
              (∀ x ∈ remotes downloads 0 reached, x.1 ≠ source)
              ∧ ∀ roots, ended.1 = .ok roots → roots.roots[i]? = some (localPath source base)) := by
  refine ⟨fun _ => IsAddress.isFetchable, ?_⟩
  intro ended
  rcases run_resolve host sources base s with hnone | ⟨downloads, reached, htaken⟩
  · exact .inl hnone
  · refine .inr ⟨downloads, reached, htaken, fun i source hget => ?_⟩
    have hroot : ∀ roots, ended.1 = .ok roots →
        roots.roots[i]? = some (rootPath base downloads (source, i)) := by
      intro roots hok
      obtain ⟨-, hroots⟩ := htaken.roots roots.roots (by rw [hok]; rfl)
      rw [hroots, List.getElem?_map, List.getElem?_zipIdx, hget]
      simp
    refine ⟨fun haddress hbare => ?_, fun hplace => ?_⟩
    · have hremote : isLocal source = false := by
        rw [← Bool.not_eq_true, isLocal_address_iff haddress]
        exact hbare
      refine ⟨fun hi => mem_remotes ?_ hremote, fun roots hok => ?_⟩
      · obtain ⟨rest, rfl⟩ := htaken.isPrefix
        rwa [List.getElem?_append_left hi] at hget
      · rw [hroot roots hok, rootPath, if_neg (by simp [hremote])]
    · have hlocal : isLocal source = true :=
        hplace.elim isLocal_of_isPlace isLocal_of_isBareAddress
      refine ⟨fun x hx hsame => ?_, fun roots hok => ?_⟩
      · rw [← hsame, isLocal_of_mem_remotes hx] at hlocal
        cases hlocal
      · rw [hroot roots hok, rootPath, if_pos hlocal]

end Resolve

/-! ## A list of sources -/

instance (source : Source) : Decidable (HasMarker source) :=
  inferInstanceAs (Decidable (_ ∨ _))

instance (source : Source) : Decidable (IsAddress source) :=
  inferInstanceAs (Decidable (∃ start ∈ addressStarts, _))

instance (source : Source) : Decidable (IsBareAddress source) :=
  inferInstanceAs (Decidable (_ ∧ _))

instance (source : Source) : Decidable (IsPlace source) :=
  inferInstanceAs (Decidable (_ ∨ _))

/-- Sources of all kinds. -/
def mixedSources : List Source := ["v", "git::h/r", "git@h:o/r", "https://h/a.md"]

theorem resolve_hands_over_mixed :
    let ended := (resolve taskHost mixedSources "/w").run ⟨emptyDisk, [], []⟩
    ∃ downloads roots, ended.1 = .ok roots ∧ roots.roots[0]? = some (Path.mk "/w/v")
      ∧ roots.roots[1]? = some (destination downloads 1)
      ∧ roots.roots[2]? = some (Path.mk "/w/git@h:o/r")
      ∧ roots.roots[3]? = some (destination downloads 3) := by
  intro ended
  obtain ⟨-, hresolved⟩ := resolve_hands_over taskHost mixedSources "/w" ⟨emptyDisk, [], []⟩
  have hok : ended.1.toOption.isSome = true := by decide +kernel
  rcases hended : ended.1 with e | roots
  · rw [hended] at hok
    cases hok
  · rcases hresolved with ⟨fault, -, -, herror⟩ | ⟨downloads, reached, -, hsources⟩
    · cases (congrArg Prod.fst herror).symm.trans hended
    · refine ⟨downloads, roots, rfl, ?_, ?_, ?_, ?_⟩
      · exact ((hsources 0 "v" rfl).2 (.inl (by decide +kernel))).2 roots hended
      · exact ((hsources 1 "git::h/r" rfl).1 (by decide +kernel) (by decide +kernel)).2 roots hended
      · exact ((hsources 2 "git@h:o/r" rfl).2 (.inr (by decide +kernel))).2 roots hended
      · exact ((hsources 3 "https://h/a.md" rfl).1 (by decide +kernel) (by decide +kernel)).2 roots
          hended

/-- The address of a repository is used as a path of this machine and not fetched. -/
theorem resolve_keeps_bare_address :
    let ended := (resolve taskHost ["git@h:o/r"] "/w").run ⟨emptyDisk, [], []⟩
    IsAddress "git@h:o/r" ∧ ended.1.toOption.map SearchRoots.roots = some [Path.mk "/w/git@h:o/r"]
      ∧ ended.2.fetches = [] := by
  decide +kernel

end SearchRoots

end Briefing

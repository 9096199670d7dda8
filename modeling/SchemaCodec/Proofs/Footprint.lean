import SchemaCodec.Proofs.Dangling

/-!
# What `generate` leaves behind

Nothing is written before there is a source: all that comes before only reads (`ReadOnly`). To write
the source, the directories around the output are made first. Each of them is named by the beginning
of the output's path, so they lie on the way to the output (`Made`), and then one file is put there.
Hence a run without a source leaves all files as they are, and a run that succeeds changes the
output and missing directories on the way to it (`CommandLine.generate_footprint`).

Whoever goes through a tree by names still gets there if directories stay directories and nothing
disappears (`FileTree.Keeps`). So the way to a directory is found in the final tree, although it was
gone before other directories were made.
-/

namespace SchemaCodec

/-! ## Names of a path -/

namespace Path

/-- The texts between the slashes of a path, without the empty ones. -/
def names (path : String) : List String :=
  ((splitSlashes [] path.toList).filter (!·.isEmpty)).map String.ofList

theorem steps_of_not_endsInSlash {path : String} (h : endsInSlash path = false) :
    steps path = names path := by
  rw [steps, h]
  exact List.append_nil _

theorem dropLast_steps_of_endsInSlash {path : String} (h : endsInSlash path = true) :
    (steps path).dropLast = names path := by
  rw [steps, h]
  exact List.dropLast_concat

theorem splitSlashes_append (name s rest : List Char) :
    splitSlashes name (s ++ '/' :: rest) = splitSlashes name s ++ splitSlashes [] rest := by
  induction s generalizing name with
  | nil => simp [splitSlashes]
  | cons c s ih =>
    simp only [List.cons_append, splitSlashes]
    split_ifs
    · rw [ih, List.cons_append]
    · exact ih _

/-- The names before a slash come before the names behind it. -/
theorem names_prefix {p path : String} {rest : List Char}
    (h : path.toList = p.toList ++ '/' :: rest) : names p <+: names path := by
  rw [names, names, h, splitSlashes_append, List.filter_append, List.map_append]
  exact List.prefix_append _ _

/-- A slash is the last thing that is dropped. -/
theorem dropTail_eq (s : List Char) : dropTail s = s ∨ ∃ w, s = w ++ '/' :: dropTail s := by
  fun_induction dropTail s with
  | case1 rest ih =>
    rcases ih with ih | ⟨w, ih⟩
    · exact .inr ⟨[], by rw [ih]; rfl⟩
    · exact .inr ⟨'/' :: w, by rw [List.cons_append, ← ih]⟩
  | case2 rest ih =>
    rcases ih with ih | ⟨w, ih⟩
    · exact .inr ⟨['.'], by rw [ih]; rfl⟩
    · exact .inr ⟨'.' :: '/' :: w, by rw [List.cons_append, List.cons_append, ← ih]⟩
  | case3 => exact .inl rfl

/-- Before the last name there is a slash, or nothing. -/
theorem dropTail_beforeName (s : List Char) :
    dropTail (beforeName s) = [] ∨ ∃ w, s = w ++ '/' :: dropTail (beforeName s) := by
  have hsuffix : beforeName s <:+ s := by
    refine (List.dropWhile_suffix _).trans ?_
    rcases dropTail_eq s with h | ⟨w, h⟩
    · exact ⟨[], h⟩
    · exact ⟨w ++ ['/'], by rw [List.append_assoc]; exact h.symm⟩
  rcases hbefore : beforeName s with _ | ⟨c, rest⟩
  · exact .inl rfl
  · have hslash : c = '/' := by
      have hhead := List.head?_dropWhile_not notSlash (dropTail s)
      rw [beforeName] at hbefore
      rw [hbefore] at hhead
      simpa [notSlash] using hhead
    subst hslash
    rw [hbefore] at hsuffix
    obtain ⟨u, hu⟩ := hsuffix
    rcases dropTail_eq rest with h | ⟨w, h⟩
    · exact .inr ⟨u, by rw [dropTail, h, hu]⟩
    · exact .inr ⟨u ++ '/' :: w, by rw [dropTail, List.append_assoc, List.cons_append, ← h, hu]⟩

/-- A path begins with the names of its parent. -/
theorem names_parent? {path p : String} (h : parent? path = some p) : names p <+: names path := by
  simp only [parent?] at h
  split_ifs at h with hempty hroot
  · cases h
    exact List.nil_prefix
  · cases h
    rcases dropTail_beforeName path.toList.reverse with hnil | ⟨w, hw⟩
    · rw [hnil]
      exact List.nil_prefix
    · refine names_prefix (?_ : path.toList = _ ++ '/' :: w.reverse)
      rw [String.toList_ofList, ← List.reverse_inj, List.reverse_append, List.reverse_cons,
        List.reverse_reverse, List.reverse_reverse, List.append_assoc]
      exact hw

/-- A parent that is named is reached from where the path begins. -/
theorem isRooted_parent? {path p : String} (h : parent? path = some p) (hp : p ≠ "") :
    isRooted p = isRooted path := by
  simp only [parent?] at h
  split_ifs at h with hempty hroot
  · cases h
    exact ((Bool.and_eq_true _ _).mp hroot).2.symm
  · cases h
    rcases dropTail_beforeName path.toList.reverse with hnil | ⟨w, hw⟩
    · rw [hnil] at hp
      exact absurd rfl hp
    · rw [List.reverse_eq_iff, List.reverse_append, List.reverse_cons, List.append_assoc] at hw
      have hne : (dropTail (beforeName path.toList.reverse)).reverse ≠ [] := by
        intro hnil
        rw [hnil] at hp
        exact hp rfl
      have hhead := congrArg List.head? hw
      rw [List.head?_append_of_ne_nil _ hne] at hhead
      rw [isRooted, isRooted, String.toList_ofList, hhead]

end Path

namespace FileTree

variable {t t' u : FileTree} {place q start steps : List String} {path : String}

/-! ## Ways through a tree -/

/-- Directories stay directories, and nothing disappears. -/
structure Keeps (t t' : FileTree) : Prop where
  directory : ∀ {place}, t.get? place = some .directory → t'.get? place = some .directory
  present : ∀ {place}, t.get? place ≠ none → t'.get? place ≠ none

/-- No one works below what is not a directory. -/
theorem not_prefix_working (h : t.get? place ≠ some .directory) : ¬ place <+: t.working :=
  mt t.get?_of_prefix h

/-- Where there was no directory, anything can be put. -/
theorem keeps_set (node : FileNode) (h : t.get? place ≠ some .directory) :
    t.Keeps (t.set place node) where
  directory {q} hq := by
    have hne : q ≠ place := by
      rintro rfl
      exact h hq
    rwa [get?_set_of_ne t node hne]
  present {q} hq := by
    by_cases hqp : q = place
    · rw [hqp, get?_set_self t node (not_prefix_working h)]
      exact Option.some_ne_none _
    · rwa [get?_set_of_ne t node hqp]

theorem walk_append (t : FileTree) (place before after : List String) :
    t.walk place (before ++ after) = (t.walk place before).bind fun q => t.walk q after := by
  induction before generalizing place with
  | nil => rfl
  | cons step before ih =>
    simp only [List.cons_append, walk]
    split_ifs <;> first | rfl | exact ih _

/-- A way through a tree is still there if the tree is kept. -/
theorem Keeps.walk (h : t.Keeps t') (hw : t.walk place steps = .ok q) :
    t'.walk place steps = .ok q := by
  induction steps generalizing place with
  | nil => exact hw
  | cons step steps ih =>
    simp only [FileTree.walk] at hw ⊢
    split_ifs at hw with hdir hdot hup hlong hnone
    all_goals rw [if_neg (not_not_intro (h.directory (not_not.1 hdir)))]
    · rw [if_pos hdot]
      exact ih hw
    · rw [if_neg hdot, if_pos hup]
      exact ih hw
    · have hsome : t'.get? (place ++ [step]) ≠ none :=
        h.present fun hn => hnone (by rw [hn]; rfl)
      rw [if_neg hdot, if_neg hup, if_neg hlong, if_neg (by simpa using hsome)]
      exact ih hw

/-- The place at the end of a path is found once there is something at it. -/
theorem walk_of_slot? (h : t.slot? start steps = .ok place) (hk : t.Keeps t')
    (hp : t'.get? place ≠ none) : t'.walk start steps = .ok place := by
  unfold slot? at h
  split at h
  · exact hk.walk h
  · exact hk.walk h
  · exact hk.walk h
  · rename_i name hdot hup hlast
    obtain ⟨before, rfl⟩ := List.getLast?_eq_some_iff.1 hlast
    rw [List.dropLast_concat] at h
    rcases hw : t.walk start before with e | p
    · rw [hw] at h
      cases h
    · rw [hw] at h
      simp only [bind, Except.bind, pure, Except.pure] at h
      split_ifs at h with hdir hlong
      cases h
      have hdir' := hk.directory (not_not.1 hdir)
      have hdot' : name ≠ "." := fun heq => hdot heq
      have hup' : name ≠ ".." := fun heq => hup heq
      rw [walk_append, hk.walk hw]
      simp [Except.bind, FileTree.walk, hdir', hdot', hup', hlong, hp]

/-! ## Making directories -/

/-- The trees have one working directory, and differ in new directories alone, each of which some of
the names lead to, starting with the first. -/
structure Made (t t' : FileTree) (start names : List String) : Prop where
  working : t'.working = t.working
  change : ∀ place, t'.get? place = t.get? place
    ∨ t.get? place = none ∧ t'.get? place = some .directory
      ∧ ∃ before, before <+: names ∧ t'.walk start before = .ok place

theorem start_eq (h : t'.working = t.working) (path : String) : t'.start path = t.start path := by
  rw [FileTree.start, FileTree.start, h]

namespace Made

variable {names more : List String}

theorem refl (t : FileTree) (start names : List String) : Made t t start names :=
  ⟨rfl, fun _ => .inl rfl⟩

theorem keeps (h : Made t t' start names) : t.Keeps t' where
  directory {place} hd := by
    rcases h.change place with heq | ⟨hnone, -⟩
    · rwa [heq]
    · cases hnone.symm.trans hd
  present {place} hp := by
    rcases h.change place with heq | ⟨hnone, -⟩
    · rwa [heq]
    · exact absurd hnone hp

theorem mono (h : Made t t' start names) (hp : names <+: more) : Made t t' start more :=
  ⟨h.working, fun place => (h.change place).imp_right
    fun ⟨hnone, hd, before, hb, hw⟩ => ⟨hnone, hd, before, hb.trans hp, hw⟩⟩

theorem trans (h : Made t t' start names) (h' : Made t' u start names) :
    Made t u start names := by
  refine ⟨h'.working.trans h.working, fun place => ?_⟩
  rcases h'.change place with heq | ⟨hnone', hd', hway⟩
  · rcases h.change place with heq' | ⟨hnone, hd, before, hb, hw⟩
    · exact .inl (heq.trans heq')
    · exact .inr ⟨hnone, heq.trans hd, before, hb, h'.keeps.walk hw⟩
  · rcases h.change place with heq | ⟨-, hd, -⟩
    · exact .inr ⟨heq.symm.trans hnone', hd', hway⟩
    · cases hnone'.symm.trans hd

end Made

theorem steps?_eq_ok (h : steps? path = .ok steps) : Path.steps path = steps := by
  unfold steps? at h
  split_ifs at h
  cases h
  rfl

theorem makeDirectory?_eq_ok (h : t.makeDirectory? path = .ok t') :
    ∃ place, t.slot? (t.start path) (Path.names path) = .ok place ∧ t.get? place = none
      ∧ t.set place .directory = t' := by
  obtain ⟨steps, hsteps, h⟩ := bind_eq_ok.1 h
  obtain ⟨place, hslot, h⟩ := bind_eq_ok.1 h
  have hnames : (if Path.endsInSlash path then steps.dropLast else steps) = Path.names path := by
    rw [← steps?_eq_ok hsteps]
    split_ifs with hslash
    · exact Path.dropLast_steps_of_endsInSlash hslash
    · exact Path.steps_of_not_endsInSlash (by simpa using hslash)
  rw [hnames] at hslot
  split_ifs at h with hsome
  · cases h
  · cases h
    exact ⟨place, hslot, by simpa using hsome, rfl⟩

theorem write?_eq_ok {bytes : Bytes} (h : t.write? path bytes = .ok t') :
    ∃ place, steps? path = .ok (Path.names path)
      ∧ t.slot? (t.start path) (Path.names path) = .ok place
      ∧ t.get? place ≠ some .directory ∧ t.set place (.file bytes) = t' := by
  obtain ⟨steps, hsteps, h⟩ := bind_eq_ok.1 h
  split_ifs at h with hslash
  · obtain ⟨_, -, h⟩ := bind_eq_ok.1 h
    cases h
  · have hnames := Path.steps_of_not_endsInSlash (Bool.not_eq_true _ ▸ hslash)
    rw [steps?_eq_ok hsteps] at hnames
    rw [hnames] at h hsteps
    obtain ⟨place, hslot, h⟩ := bind_eq_ok.1 h
    split_ifs at h with hdir
    · cases h
    · cases h
      exact ⟨place, hsteps, hslot, hdir, rfl⟩

/-- What is put at the end of a path is found there. -/
theorem walk_set_of_slot? (node : FileNode) (hslot : t.slot? start steps = .ok place)
    (h : t.get? place ≠ some .directory) : (t.set place node).walk start steps = .ok place := by
  refine walk_of_slot? hslot (keeps_set node h) ?_
  rw [get?_set_self t node (not_prefix_working h)]
  exact Option.some_ne_none _

section Update

variable {f : FileTree → Except FileError FileTree}

theorem run_update_of_ok (h : f t = .ok t') : t.run (update f) = (.ok (), t') := by
  show update f t = _
  rw [update, h]

theorem run_update_of_error {e : FileError} (h : f t = .error e) :
    t.run (update f) = (.error e, t) := by
  show update f t = _
  rw [update, h]

end Update

/-- Whatever the files are, the action makes directories on the way along the path, and changes
nothing else. -/
def Makes {α : Type} (x : StateM FileTree α) (path : String) : Prop :=
  ∀ t : FileTree, Made t (t.run x).2 (t.start path) (Path.names path)

namespace Makes

variable {α β : Type} {x : StateM FileTree α}

theorem of_readOnly (h : CommandLine.ReadOnly x) (path : String) : Makes x path := by
  intro t
  rw [h t]
  exact .refl t _ _

theorem pure (a : α) (path : String) : Makes (Pure.pure a) path :=
  of_readOnly (.pure a) path

theorem bind {f : α → StateM FileTree β} (hx : Makes x path) (hf : ∀ a, Makes (f a) path) :
    Makes (x >>= f) path := by
  intro t
  have hmade := hf (t.run x).1 (t.run x).2
  rw [start_eq (hx t).working] at hmade
  rw [run_bind]
  exact (hx t).trans hmade

/-- What lies on the way to the parent lies on the way to the path. -/
theorem of_parent {p : String} (h : Makes x p) (hparent : Path.parent? path = some p)
    (hp : p ≠ "") : Makes x path := by
  intro t
  rw [FileTree.start, ← Path.isRooted_parent? hparent hp]
  exact (h t).mono (Path.names_parent? hparent)

theorem makeDirectory (path : String) : Makes (Files.makeDirectory path) path := by
  intro t
  rcases h : t.makeDirectory? path with e | t'
  · have hrun : t.run (Files.makeDirectory path) = (.error e, t) := run_update_of_error h
    rw [hrun]
    exact .refl t _ _
  · have hrun : t.run (Files.makeDirectory path) = (.ok (), t') := run_update_of_ok h
    rw [hrun]
    obtain ⟨place, hslot, hnone, rfl⟩ := makeDirectory?_eq_ok h
    have hdir : t.get? place ≠ some .directory := by simp [hnone]
    refine ⟨rfl, fun q => ?_⟩
    by_cases hq : q = place
    · subst hq
      exact .inr ⟨hnone, get?_set_self t _ (not_prefix_working hdir), _, List.prefix_refl _,
        walk_set_of_slot? _ hslot hdir⟩
    · exact .inl (get?_set_of_ne t _ hq)

theorem ensureDirectory (path : String) : Makes (Files.ensureDirectory path) path := by
  refine (makeDirectory path).bind fun r => ?_
  rcases r with e | _
  · have hread : CommandLine.ReadOnly (Files.isDirectory path) := fun _ => rfl
    refine (of_readOnly hread _).bind fun isThere => ?_
    split_ifs <;> exact pure _ _
  · exact pure _ _

/-- The path of each directory that is made is a beginning of the path. -/
theorem makeDirectoriesUp (fuel : Nat) (path : String) :
    Makes (Files.makeDirectoriesUp fuel path) path := by
  induction fuel generalizing path with
  | zero => exact ensureDirectory path
  | succ fuel ih =>
    refine (ensureDirectory path).bind fun r => ?_
    split
    · split
      · exact pure _ _
      · exact pure _ _
      · rename_i p hp hparent
        refine ((ih p).of_parent hparent hp).bind fun r => ?_
        rcases r with e | _
        · exact pure _ _
        · exact ensureDirectory path
    · exact pure _ _

theorem makeParents (path : String) : Makes (CommandLine.makeParents path) path := by
  unfold CommandLine.makeParents
  split
  · exact pure _ _
  · exact pure _ _
  · rename_i p hp hparent
    exact ((makeDirectoriesUp _ p).of_parent hparent hp).bind fun _ => pure _ _

end Makes

end FileTree

namespace CommandLine

open FileTree (Made Makes)

variable {t t' : FileTree} {schema output : String} {config : Option String}

/-! ## Writing the output -/

/-- The output is one file, which is put into a tree where at most directories were made. -/
theorem exists_of_writeOutput {text : String}
    (h : t.run (writeOutput output text) = (.ok (), t')) : ∃ t₁ place,
      Made t t₁ (t.start output) (Path.names output)
      ∧ FileTree.steps? output = .ok (Path.names output)
      ∧ t₁.slot? (t.start output) (Path.names output) = .ok place
      ∧ t₁.get? place ≠ some .directory ∧ t₁.set place (.file text.toUTF8.data) = t' := by
  have hmade := Makes.makeParents output t
  rw [writeOutput, FileTree.run_bind] at h
  generalize t.run (makeParents output) = r at hmade h
  rcases r with ⟨f | _, t₁⟩
  · cases h
  · rcases hw : t₁.write? output text.toUTF8.data with e | t₂
    · have hwrite : t₁.run (Files.writeText output text) = (.error e, t₁) :=
        FileTree.run_update_of_error hw
      simp only [FileTree.run_bind, hwrite] at h
      cases h
    · have hwrite : t₁.run (Files.writeText output text) = (.ok (), t₂) :=
        FileTree.run_update_of_ok hw
      simp only [FileTree.run_bind, hwrite] at h
      cases h
      obtain ⟨place, hwritten⟩ := FileTree.write?_eq_ok hw
      rw [FileTree.start_eq hmade.working] at hwritten
      exact ⟨t₁, place, hmade, hwritten⟩

/-- What the output leaves behind: the file, and new directories on the way to it. -/
theorem footprint_of_writeOutput {text : String}
    (h : t.run (writeOutput output text) = (.ok (), t')) : ∃ place,
      t'.working = t.working
      ∧ t.get? place ≠ some .directory ∧ t'.find? output = .ok place
      ∧ t'.get? place = some (.file text.toUTF8.data)
      ∧ ∀ q ≠ place, t'.get? q = t.get? q
        ∨ t.get? q = none ∧ t'.get? q = some .directory
          ∧ ∃ before, before <+: Path.names output
            ∧ t'.walk (t.start output) before = .ok q := by
  obtain ⟨t₁, place, hmade, hsteps, hslot, hdir, rfl⟩ := exists_of_writeOutput h
  have hkeeps := FileTree.keeps_set (.file text.toUTF8.data) hdir
  have hwalk := FileTree.walk_set_of_slot? (.file text.toUTF8.data) hslot hdir
  have hworking : (t₁.set place (.file text.toUTF8.data)).working = t.working := hmade.working
  refine ⟨place, hworking, mt hmade.keeps.directory hdir, ?_, ?_, fun q hq => ?_⟩
  · rw [FileTree.find?, hsteps, FileTree.start_eq hworking]
    exact hwalk
  · exact t₁.get?_set_self _ (FileTree.not_prefix_working hdir)
  · rw [t₁.get?_set_of_ne _ hq]
    rcases hmade.change q with heq | ⟨hnone, hnew, before, hbefore, hway⟩
    · exact .inl heq
    · exact .inr ⟨hnone, hnew, before, hbefore, hkeeps.walk hway⟩

/-! ## The command -/

theorem ReadOnly.prepare? (schema : String) (config : Option String) :
    ReadOnly (prepare? schema config) := by
  refine (resolveSettings? config).bind fun r => ?_
  rcases r with f | settings
  · exact pure _
  · exact (loadSchema? schema).bind fun _ => pure _

/-- There is something to write if the settings, the schema and its source are there. -/
theorem prepare?_eq_ok {s : Schema} {text : String} :
    (t.run (prepare? schema config)).1 = .ok (s, text)
      ↔ ∃ settings, (t.run (resolveSettings? config)).1 = .ok settings
        ∧ (t.run (loadSchema? schema)).1 = .ok s ∧ s.generate settings = .ok text := by
  rcases hsettings : (t.run (resolveSettings? config)).1 with f | settings
  · have hrun : (t.run (prepare? schema config)).1 = .error f := by
      unfold prepare?
      rw [FileTree.run_bind, hsettings]
      rfl
    simp [hrun]
  · rw [run_prepare? schema hsettings]
    rcases (t.run (loadSchema? schema)).1 with f | c
    · simp [Except.bind]
    · simp only [Except.bind, render?, Except.ok.injEq, exists_eq_left']
      rcases hc : c.generate settings with e | source
      · simp only [Except.mapError, Except.map, reduceCtorEq, false_iff, not_and]
        rintro rfl
        simp [hc]
      · simp only [Except.mapError, Except.map, Except.ok.injEq, Prod.mk.injEq]
        constructor
        · rintro ⟨rfl, rfl⟩
          exact ⟨rfl, hc⟩
        · rintro ⟨rfl, h⟩
          exact ⟨rfl, Except.ok.inj (hc.symm.trans h)⟩

/-- If the settings or the schema cannot be read, if the schema mentions missing definitions, or if
it has no source, then `generate` fails and the files are as before. If it succeeds, then the output
holds the source of the schema with the settings, and apart from that there are at most new
directories, on the way to the output. -/
theorem generate_footprint (t : FileTree) (schema output : String) (config : Option String) :
    ((∃ f, (t.run (resolveSettings? config)).1 = .error f)
      ∨ (∃ e, (t.run (Schema.ofFile? schema)).1 = .error e)
      ∨ (∃ s, (t.run (Schema.ofFile? schema)).1 = .ok s ∧ s.dangling ≠ [])
      ∨ (∃ settings s e, (t.run (resolveSettings? config)).1 = .ok settings
        ∧ (t.run (Schema.ofFile? schema)).1 = .ok s ∧ s.generate settings = .error e) →
      ∃ f, t.run (Command.run (.generate schema output config)) = (⟨"", some f⟩, t))
    ∧ ∀ outcome t', t.run (Command.run (.generate schema output config)) = (outcome, t') →
      outcome.failure = none → ∃ settings s text place,
        (t.run (resolveSettings? config)).1 = .ok settings
        ∧ (t.run (loadSchema? schema)).1 = .ok s ∧ s.generate settings = .ok text
        ∧ t'.working = t.working ∧ t.get? place ≠ some .directory
        ∧ t'.find? output = .ok place ∧ t'.get? place = some (.file text.toUTF8.data)
        ∧ ∀ q ≠ place, t'.get? q = t.get? q
          ∨ t.get? q = none ∧ t'.get? q = some .directory
            ∧ ∃ before, before <+: Path.names output
              ∧ t'.walk (t.start output) before = .ok q := by
  have hread := ReadOnly.prepare? schema config t
  have hok := @prepare?_eq_ok t schema config
  rw [run_generate]
  generalize t.run (prepare? schema config) = r at hread hok ⊢
  rcases r with ⟨f | ⟨s, text⟩, t₀⟩
  · obtain rfl : t₀ = t := hread
    refine ⟨fun _ => ⟨f, rfl⟩, fun outcome t' hrun hnone => ?_⟩
    cases hrun
    cases hnone
  · obtain rfl : t₀ = t := hread
    obtain ⟨settings, hsettings, hload, hsource⟩ := hok.1 rfl
    obtain ⟨hfile, hnil⟩ := loadSchema?_eq_ok.1 hload
    refine ⟨?_, fun outcome t' hrun hnone => ?_⟩
    · rintro (⟨f, hf⟩ | ⟨e, he⟩ | ⟨c, hc, hne⟩ | ⟨_, c, e, hs, hc, he⟩)
      · cases hsettings.symm.trans hf
      · cases hfile.symm.trans he
      · cases hfile.symm.trans hc
        exact absurd hnil hne
      · cases hsettings.symm.trans hs
        cases hfile.symm.trans hc
        cases hsource.symm.trans he
    · simp only at hrun
      rcases hw : t₀.run (writeOutput output text) with ⟨f | _, t₂⟩
      · rw [hw] at hrun
        cases hrun
        cases hnone
      · rw [hw] at hrun
        cases hrun
        obtain ⟨place, hplace⟩ := footprint_of_writeOutput hw
        exact ⟨settings, s, text, place, hsettings, hload, hsource, hplace⟩

/-- A directory that the path only passes through is made as well. -/
example : ((FileTree.mk ["harbour"]
        [(["harbour", "schema.json"], .file "\x7b\x7d".toUTF8.data)]).run
      (Command.run (.generate "schema.json" "src/../made/schema.rs" none))).2.entries.map (·.1)
    = [["harbour", "made", "schema.rs"], ["harbour", "made"], ["harbour", "src"],
      ["harbour", "schema.json"]] := by
  decide +kernel

end CommandLine

namespace Harbour

open CommandLine

theorem load_eq : (files.run (loadSchema? "../schema.json")).1 = .ok schema :=
  loadSchema?_eq_ok.2 ⟨file_eq, by decide⟩

/-- The files with a source below the root. -/
def written (text : String) : FileTree :=
  { files with
    entries := (["srv", "made", "buoy.rs"], .file text.toUTF8.data) :: (["srv", "made"], .directory)
      :: (["srv"], .directory) :: files.entries }

theorem run_writeOutput (text : String) :
    files.run (writeOutput "/srv/made/buoy.rs" text) = (.ok (), written text) := by
  rfl

/-- The schema lies outside of the working directory, and so does the output, in directories that
are missing. They and the output are all that changes; without a schema nothing does. -/
theorem generated_outside :
    (∃ f, files.run (Command.run (.generate "schema.json" "/srv/made/buoy.rs" none))
      = (⟨"", some f⟩, files))
    ∧ ∃ outcome text, schema.generate {} = .ok text ∧ outcome.failure = none
      ∧ files.run (Command.run (.generate "../schema.json" "/srv/made/buoy.rs" none))
        = (outcome, written text)
      ∧ (written text).get? ["srv", "made", "buoy.rs"] = some (.file text.toUTF8.data)
      ∧ ∀ q ≠ ["srv", "made", "buoy.rs"], (written text).get? q = files.get? q
        ∨ files.get? q = none ∧ (written text).get? q = some .directory
          ∧ ∃ before, before <+: ["srv", "made", "buoy.rs"]
            ∧ (written text).walk [] before = .ok q := by
  have hmissing : (files.run (Schema.ofFile? "schema.json")).1 = .error (.file .notFound) := rfl
  have hsettings : (files.run (resolveSettings? none)).1 = .ok {} := by decide +kernel
  obtain ⟨text, hsource⟩ := source_exists
  have hprepare : files.run (prepare? "../schema.json" none) = (.ok (schema, text), files) := by
    rw [run_prepare? _ hsettings, load_eq]
    simp only [Except.bind, render?, hsource]
    rfl
  have hrun := @run_generate files "../schema.json" none "/srv/made/buoy.rs"
  rw [hprepare] at hrun
  simp only [run_writeOutput] at hrun
  obtain ⟨settings, s, text', place, hsettings', hload, hsource', -, -, hfind, hfile, hrest⟩ :=
    (generate_footprint files "../schema.json" "/srv/made/buoy.rs" none).2 _ _ hrun rfl
  obtain rfl : {} = settings := Except.ok.inj (hsettings.symm.trans hsettings')
  obtain rfl : schema = s := Except.ok.inj (load_eq.symm.trans hload)
  obtain rfl : text = text' := Except.ok.inj (hsource.symm.trans hsource')
  have hplace : (written text).find? "/srv/made/buoy.rs" = .ok ["srv", "made", "buoy.rs"] := rfl
  obtain rfl : ["srv", "made", "buoy.rs"] = place := Except.ok.inj (hplace.symm.trans hfind)
  exact ⟨(generate_footprint files _ _ none).1 (.inr (.inl ⟨_, hmissing⟩)), _, text, hsource, rfl,
    hrun, hfile, hrest⟩

end Harbour

end SchemaCodec

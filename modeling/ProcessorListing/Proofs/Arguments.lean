import ProcessorListing.CommandLine.Arguments

/-!
# What arguments give

A call is made of parts, a flag with its value or a path, and `Part.Spells` says which arguments
spell which parts.  Arguments that are accepted spell some parts (`Options.exists_spells_of_read`),
and reading them is taking these parts one by one (`Options.read_of_spells`).  A part is never taken
back and never replaced, so the options hold exactly the parts that were spelled
(`Options.has_iff_mem`).

`Request.AskedBy` is what a request must be for such parts and an environment.
-/

namespace ProcessorListing

/-- The name of a flag. -/
def Flag.name : Flag → Text
  | architecture => "arch".toList
  | root => "prefix".toList
  | format => "format".toList

theorem Flag.ofName?_eq_some_iff {name : Text} {f : Flag} :
    ofName? name = some f ↔ f.name = name := by
  constructor
  · intro h
    unfold ofName? at h
    split at h
    next hname => cases h; exact hname.symm
    split at h
    next hname => cases h; exact hname.symm
    split at h
    next hname => cases h; exact hname.symm
    contradiction
  · rintro rfl
    cases f <;> decide

/-- The name of a format. -/
def Format.name : Format → Text
  | text => "text".toList
  | json => "json".toList
  | facts => "facts".toList

theorem Format.ofName?_eq_some_iff {name : Text} {f : Format} :
    ofName? name = some f ↔ f.name = name := by
  constructor
  · intro h
    unfold ofName? at h
    split at h
    next hname => cases h; exact hname.symm
    split at h
    next hname => cases h; exact hname.symm
    split at h
    next hname => cases h; exact hname.symm
    contradiction
  · rintro rfl
    cases f <;> decide

/-- A part of a call. -/
inductive Part
  | flag (f : Flag) (value : Text)
  | path (path : Text)
deriving DecidableEq, Repr

/-- The arguments in which the parts of a call may be spelled. -/
inductive Part.Spells : List Part → List Text → Prop
  | nil : Spells [] []
  /-- The value of a flag after `=`. -/
  | joined {parts : List Part} {more : List Text} (f : Flag) (value : Text) (h : Spells parts more) :
    Spells (.flag f value :: parts) (('-' :: '-' :: (f.name ++ '=' :: value)) :: more)
  /-- The value of a flag as the next argument. -/
  | apart {parts : List Part} {more : List Text} (f : Flag) {value : Text}
    (hvalue : Options.isFlagLike value = false) (h : Spells parts more) :
    Spells (.flag f value :: parts) (('-' :: '-' :: f.name) :: value :: more)
  | path {parts : List Part} {more : List Text} {path : Text}
    (hpath : Options.isFlagLike path = false) (h : Spells parts more) :
    Spells (.path path :: parts) (path :: more)
  /-- After `--` every argument is a path. -/
  | paths (paths : List Text) : Spells (paths.map .path) (['-', '-'] :: paths)

namespace Options

/-- Takes a part. -/
def take (o : Options) : Part → Option Options
  | .flag f value => o.give f value
  | .path path => o.givePath path

theorem readPaths_eq (o : Options) (paths : List Text) :
    o.readPaths paths = (paths.map Part.path).foldlM take o := by
  induction paths generalizing o with
  | nil => rfl
  | cons path more ih =>
    rw [readPaths, List.map_cons, List.foldlM_cons, funext ih]
    rfl

/-- What stands after the name of a flag is nothing, or a value and `=` before it. -/
theorem drop_name (flag : Text) :
    let name := flag.takeWhile (· ≠ '=')
    (flag.drop name.length = [] ∧ flag = name) ∨
      ∃ value, flag.drop name.length = '=' :: value ∧ flag = name ++ '=' :: value := by
  induction flag with
  | nil => exact .inl ⟨rfl, rfl⟩
  | cons c flag ih =>
    by_cases hc : c = '='
    · subst hc
      exact .inr ⟨flag, rfl, rfl⟩
    · simp only [ne_eq, hc, not_false_eq_true, decide_true, List.takeWhile_cons_of_pos,
        List.length_cons, List.drop_succ_cons, List.cons_append, List.cons.injEq, true_and]
      exact ih

theorem read_eq_bind {o : Options} {part : Part} {parts : List Part} {more : List Text}
    (h : ∀ o' : Options, o'.read more = parts.foldlM take o') :
    (o.take part).bind (read · more) = (part :: parts).foldlM take o := by
  rw [List.foldlM_cons, funext h]
  rfl

theorem read_joined (o : Options) (f : Flag) (value : Text) (more : List Text) :
    o.read (('-' :: '-' :: (f.name ++ '=' :: value)) :: more) =
      (o.give f value).bind (read · more) := by
  rw [read.eq_def]
  cases f <;> rfl

theorem read_apart (o : Options) (f : Flag) {value : Text} (hvalue : isFlagLike value = false)
    (more : List Text) :
    o.read (('-' :: '-' :: f.name) :: value :: more) = (o.give f value).bind (read · more) := by
  have hread : o.read (('-' :: '-' :: f.name) :: value :: more) =
      if isFlagLike value then none else (o.give f value).bind (read · more) := by
    rw [read.eq_def]
    cases f <;> rfl
  rw [hread, hvalue]
  rfl

theorem read_path (o : Options) {path : Text} (hpath : isFlagLike path = false)
    (more : List Text) : o.read (path :: more) = (o.givePath path).bind (read · more) := by
  rw [read]
  · exact if_neg (by simp [hpath])
  · rintro rfl
    contradiction
  · rintro flag rfl
    contradiction

theorem read_paths (o : Options) (paths : List Text) :
    o.read (['-', '-'] :: paths) = (paths.map Part.path).foldlM take o := by
  rw [read]
  exact readPaths_eq o paths

/-- Parts that are spelled are taken. -/
theorem read_of_spells {parts : List Part} {arguments : List Text} (h : Part.Spells parts arguments)
    (o : Options) : o.read arguments = parts.foldlM take o := by
  induction h generalizing o with
  | nil => rfl
  | joined f value _ ih => rw [read_joined, ← read_eq_bind ih, take]
  | apart f hvalue _ ih => rw [read_apart o f hvalue, ← read_eq_bind ih, take]
  | path hpath _ ih => rw [read_path o hpath, ← read_eq_bind ih, take]
  | paths paths => exact read_paths o paths

/-- Arguments that are read spell some parts. -/
theorem exists_spells_of_read {o o' : Options} {arguments : List Text}
    (hread : o.read arguments = some o') : ∃ parts, Part.Spells parts arguments := by
  fun_induction read o arguments generalizing o' with
  | case1 => exact ⟨[], .nil⟩
  | case2 o paths => exact ⟨_, .paths paths⟩
  | case3 => contradiction
  | case4 o flag _ name f c value more hdrop hname =>
    rename_i ih
    obtain ⟨o₁, -, hmore⟩ := Option.bind_eq_some_iff.1 hread
    obtain ⟨parts, hparts⟩ := ih o₁ hmore
    have hf : f.name = name := Flag.ofName?_eq_some_iff.1 hname
    rcases drop_name flag with ⟨hnil, -⟩ | ⟨value', hcons, hflag⟩
    · rw [hnil] at hdrop
      contradiction
    · obtain ⟨-, rfl⟩ := List.cons.inj (hcons.symm.trans hdrop)
      have hspells := Part.Spells.joined f value' hparts
      rw [hf] at hspells
      rw [hflag]
      exact ⟨_, hspells⟩
  | case5 => contradiction
  | case6 => contradiction
  | case7 o flag _ name f value more hdrop hname hvalue =>
    rename_i ih
    obtain ⟨o₁, -, hmore⟩ := Option.bind_eq_some_iff.1 hread
    obtain ⟨parts, hparts⟩ := ih o₁ hmore
    have hf : f.name = name := Flag.ofName?_eq_some_iff.1 hname
    rcases drop_name flag with ⟨-, hflag⟩ | ⟨value', hcons, -⟩
    · have hspells := Part.Spells.apart f (by simpa using hvalue) hparts
      rw [hf] at hspells
      rw [hflag]
      exact ⟨_, hspells⟩
    · rw [hcons] at hdrop
      contradiction
  | case8 => contradiction
  | case9 o path more _ _ hpath ih =>
    obtain ⟨o₁, -, hmore⟩ := Option.bind_eq_some_iff.1 hread
    obtain ⟨parts, hparts⟩ := ih o₁ hmore
    exact ⟨.path path :: parts, .path (by simpa using hpath) hparts⟩

/-- The options hold a part. -/
def Has (o : Options) : Part → Prop
  | .flag .architecture value => o.architecture = some value
  | .flag .root value => o.root = some value
  | .flag .format value => o.format.map Format.name = some value
  | .path path => o.path = some path

/-- A part that is taken is held from then on, and nothing else changes. -/
theorem has_take {o o' : Options} {part : Part} (h : o.take part = some o') (q : Part) :
    o'.Has q ↔ o.Has q ∨ q = part := by
  rcases part with ⟨_ | _ | _, value⟩ | path
  · simp only [take, give, Option.ite_none_left_eq_some, Option.some.injEq,
      Option.not_isSome_iff_eq_none] at h
    obtain ⟨hfree, rfl⟩ := h
    rcases q with ⟨_ | _ | _, v⟩ | p <;> simp [Has, hfree, eq_comm]
  · simp only [take, give, Option.ite_none_left_eq_some, Option.some.injEq,
      Option.not_isSome_iff_eq_none, not_or] at h
    obtain ⟨hfree, rfl⟩ := h
    rcases q with ⟨_ | _ | _, v⟩ | p <;> simp [Has, hfree, eq_comm]
  · simp only [take, give, Option.ite_none_left_eq_some, Option.map_eq_some_iff,
      Option.bind_eq_bind, Option.bind_eq_some_iff, Option.pure_def, Option.some.injEq,
      Option.not_isSome_iff_eq_none, Format.ofName?_eq_some_iff] at h
    obtain ⟨hfree, _, ⟨format, rfl, rfl⟩, rfl⟩ := h
    rcases q with ⟨_ | _ | _, v⟩ | p <;> simp [Has, hfree, eq_comm]
  · simp only [take, givePath, Option.ite_none_left_eq_some, Option.some.injEq,
      Option.not_isSome_iff_eq_none, not_or] at h
    obtain ⟨hfree, rfl⟩ := h
    rcases q with ⟨_ | _ | _, v⟩ | p <;> simp [Has, hfree, eq_comm]

theorem has_foldlM {o o' : Options} {parts : List Part} (h : parts.foldlM take o = some o')
    (q : Part) : o'.Has q ↔ o.Has q ∨ q ∈ parts := by
  induction parts generalizing o with
  | nil =>
    cases h
    simp
  | cons part parts ih =>
    rw [List.foldlM_cons] at h
    obtain ⟨o₁, htake, hmore⟩ := Option.bind_eq_some_iff.1 h
    rw [ih hmore, has_take htake, List.mem_cons, or_assoc]

/-- After a whole call the options hold the parts that it was made of, and no others. -/
theorem has_iff_mem {o : Options} {parts : List Part} (h : parts.foldlM take {} = some o)
    (q : Part) : o.Has q ↔ q ∈ parts := by
  have hnone : ¬ Has {} q := by
    rcases q with ⟨_ | _ | _, value⟩ | path <;> simp [Has]
  rw [has_foldlM h, or_iff_right hnone]

end Options

namespace Path

/-- The components of a path.  A path begins with its first step, which is empty if it begins with a
slash; after that, empty steps and `.` do not count. -/
def components (path : Text) : List Text :=
  if path = [] then []
  else
    match steps path with
    | [] => []
    | first :: more => first :: more.filter fun step => !(step = [] || step = ['.'])

/-- Two texts are the same as paths. -/
def Same (path path' : Text) : Prop := components path = components path'

theorem isOnly_iff {name path : Text} (hname : name ≠ []) :
    isOnly name path = true ↔ components path = [name] := by
  by_cases hpath : path = []
  · subst hpath
    simp [isOnly, components, steps, Text.cut, hname.symm]
  · rw [isOnly, components, if_neg hpath]
    cases steps path with
    | nil => simp
    | cons first more => simp [List.filter_eq_nil_iff, Decidable.or_iff_not_imp_left]

theorem isOnly_hyphen_iff {path : Text} : isOnly ['-'] path = true ↔ Same path ['-'] :=
  isOnly_iff (by decide)

end Path

namespace Request

/-- What a call made of `parts` asks for: what stands in it wins over what the environment gives, and
a path wins over a root. -/
structure AskedBy (r : Request) (env : Environment) (parts : List Part) : Prop where
  architecture : ∀ id, .flag .architecture id ∈ parts → r.architecture = id
  no_architecture : (∀ id, .flag .architecture id ∉ parts) →
    r.architecture = env.architecture.getD env.host
  format : ∀ name, .flag .format name ∈ parts → r.format.name = name
  no_format : (∀ name, .flag .format name ∉ parts) → r.format = .text
  input : ∀ path, .path path ∈ parts → Path.Same path ['-'] → r.source = .standardInput
  path : ∀ path, .path path ∈ parts → ¬ Path.Same path ['-'] → r.source = .file path
  root : (∀ path, .path path ∉ parts) → ∀ root, .flag .root root ∈ parts →
    r.source = .file (Path.join root Source.kernelPath)
  environment_root : (∀ path, .path path ∉ parts) → (∀ root, .flag .root root ∉ parts) →
    ∀ root, env.root = some root → r.source = .file (Path.join root Source.kernelPath)
  no_root : (∀ path, .path path ∉ parts) → (∀ root, .flag .root root ∉ parts) →
    env.root = none → r.source = .file ('/' :: Source.kernelPath)

/-- Arguments that are accepted spell the parts of a call. -/
theorem exists_spells {r : Request} {env : Environment} {arguments : List Text}
    (h : ofArguments? env arguments = some r) : ∃ parts, Part.Spells parts arguments := by
  unfold ofArguments? at h
  split at h
  · contradiction
  next hread => exact Options.exists_spells_of_read hread

/-- A request is what the parts of the call ask for. -/
theorem askedBy_of_spells {r : Request} {env : Environment} {arguments : List Text}
    (h : ofArguments? env arguments = some r) {parts : List Part}
    (hspells : Part.Spells parts arguments) : r.AskedBy env parts := by
  unfold ofArguments? at h
  split at h
  · contradiction
  next o hread =>
    obtain ⟨-, hr⟩ := Option.ite_none_left_eq_some.1 h
    obtain rfl := Option.some.inj hr
    have htake : parts.foldlM Options.take {} = some o := Options.read_of_spells hspells {} ▸ hread
    have harchitecture (id : Text) : o.architecture = some id ↔ .flag .architecture id ∈ parts :=
      Options.has_iff_mem htake (.flag .architecture id)
    have hroot (root : Text) : o.root = some root ↔ .flag .root root ∈ parts :=
      Options.has_iff_mem htake (.flag .root root)
    have hformat (name : Text) : o.format.map Format.name = some name ↔
        .flag .format name ∈ parts := Options.has_iff_mem htake (.flag .format name)
    have hpath (path : Text) : o.path = some path ↔ .path path ∈ parts :=
      Options.has_iff_mem htake (.path path)
    have hno_path (hno : ∀ path, .path path ∉ parts) : o.path = none :=
      Option.eq_none_iff_forall_ne_some.2 fun path h => hno path ((hpath path).1 h)
    have hno_root (hno : ∀ root, .flag .root root ∉ parts) : o.root = none :=
      Option.eq_none_iff_forall_ne_some.2 fun root h => hno root ((hroot root).1 h)
    constructor
    case architecture =>
      intro id hid
      rw [(harchitecture id).2 hid]
      rfl
    case no_architecture =>
      intro hno
      have hnone : o.architecture = none :=
        Option.eq_none_iff_forall_ne_some.2 fun id h => hno id ((harchitecture id).1 h)
      rw [hnone]
      rfl
    case format =>
      intro name hname
      obtain ⟨format, hsome, hname⟩ := Option.map_eq_some_iff.1 ((hformat name).2 hname)
      rw [hsome]
      exact hname
    case no_format =>
      intro hno
      have hnone : o.format = none := Option.eq_none_iff_forall_ne_some.2 fun format h =>
        hno format.name ((hformat format.name).1 (by rw [h]; rfl))
      rw [hnone]
      rfl
    case input =>
      intro path hmem hsame
      rw [(hpath path).2 hmem]
      exact if_pos (Path.isOnly_hyphen_iff.2 hsame)
    case path =>
      intro path hmem hsame
      rw [(hpath path).2 hmem]
      exact if_neg fun h => hsame (Path.isOnly_hyphen_iff.1 h)
    case root =>
      intro hno root hmem
      rw [hno_path hno, (hroot root).2 hmem]
      rfl
    case environment_root =>
      intro hno hnor root henv
      rw [hno_path hno, hno_root hnor, henv]
      rfl
    case no_root =>
      intro hno hnor henv
      rw [hno_path hno, hno_root hnor, henv]
      rfl

end Request

end ProcessorListing

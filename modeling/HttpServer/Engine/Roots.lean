import HttpServer.Engine.Handle
import HttpServer.StaticPlan.Confinement
import HttpServer.Core.Resolution

set_option autoImplicit false

namespace HttpServer.Engine

open Unicode Text HttpServer.Core Dialogue StaticPlan

section

variable {root name : Str}

theorem hasSuffix_single {s : Str} {u : UInt16} :
    hasSuffix s [u] = true ↔ ∃ init, s = init ++ [u] := by
  rw [hasSuffix, List.isSuffixOf_iff_suffix]
  exact exists_congr fun init => eq_comm

theorem slash_single : str "/" = [unit '/'] := by decide

theorem backslash_single : str "\\" = [unit '\\'] := by decide

theorem root_length (root : Str) : root.length ≤ (normRoot root).length + 1 := by
  unfold normRoot
  split_ifs
  · rw [List.length_dropLast]
    omega
  · omega

def base (config : Config) : Str :=
  if hasSuffix (normRoot config.root) (str "/") then normRoot config.root
  else normRoot config.root ++ str "/"

theorem relative_base {config : Config} (some_ : name ≠ [])
    (other : base config ++ name ≠ config.root) : relative config (base config ++ name) = some name := by
  have starts : hasPrefix (base config ++ name) (base config) = true :=
    List.isPrefixOf_iff_prefix.mpr (List.prefix_append _ _)
  have root : base config ++ name ≠ normRoot config.root := by
    intro same
    have lengths := congrArg List.length same
    have positive := List.length_pos_iff.mpr some_
    rw [List.length_append] at lengths
    unfold base at lengths
    split_ifs at lengths
    · omega
    · rw [List.length_append] at lengths
      omega
  unfold relative
  unfold base at starts root other ⊢
  simp only [root, other, or_self, if_false, starts, if_true, List.drop_left]

-- A name joined under the root comes back as it is, or with the slash that stood in between.
theorem relative_joined_iff {config : Config} (some_ : name ≠ []) :
    relative config (normRoot config.root ++ str "/" ++ name) = some name ↔
      hasSuffix (normRoot config.root) (str "/") = false := by
  have length := root_length config.root
  have positive := List.length_pos_iff.mpr some_
  have one : (str "/").length = 1 := by decide
  have other : normRoot config.root ++ str "/" ++ name ≠ config.root := by
    intro same
    have lengths := congrArg List.length same
    rw [List.length_append, List.length_append] at lengths
    omega
  cases trailing : hasSuffix (normRoot config.root) (str "/") with
  | false =>
    have whole : normRoot config.root ++ str "/" = base config := by simp [base, trailing]
    rw [whole] at other ⊢
    exact iff_of_true (relative_base some_ other) rfl
  | true =>
    have whole : normRoot config.root = base config := by simp [base, trailing]
    rw [List.append_assoc, whole] at other ⊢
    refine iff_of_false (fun same => ?_) (by simp)
    rw [relative_base (by simp [slash_single]) other, Option.some.injEq] at same
    have lengths := congrArg List.length same
    rw [List.length_append] at lengths
    omega

theorem normRoot_kept {root : Str} (some_ : root ≠ []) : normRoot root ≠ [] := by
  have positive := List.length_pos_iff.mpr some_
  unfold normRoot
  split_ifs with trailing
  · simp only [Bool.and_eq_true, decide_eq_true_eq] at trailing
    rw [← List.length_pos_iff, List.length_dropLast]
    omega
  · exact some_

-- A second separator is only taken off behind something else.
theorem normRoot_long {root : Str} {u : UInt16} (whole : root = normRoot root ++ [u]) :
    1 < root.length := by
  by_contra short
  have same : normRoot root = root := by
    unfold normRoot
    rw [if_neg]
    simp only [Bool.and_eq_true, decide_eq_true_eq, not_and]
    omega
  have lengths := congrArg List.length whole
  rw [same, List.length_append, List.length_singleton] at lengths
  omega

theorem normRoot_single {root separator : Str} (known : separator = str "/" ∨ separator = str "\\")
    (same : normRoot root = root) (trailing : hasSuffix root separator = true) : root.length ≤ 1 := by
  by_contra long
  have trims : normRoot root = root.dropLast := by
    unfold normRoot
    rw [if_pos]
    rcases known with rfl | rfl <;> simp [trailing] <;> omega
  have lengths := congrArg List.length (trims.symm.trans same)
  rw [List.length_dropLast] at lengths
  omega

-- An index file is joined under the root once more without its trailing separator.
theorem relative_index_iff {config : Config} (long : 1 < name.length) :
    relative config (normRoot (normRoot config.root) ++ str "/" ++ name) = some name ↔
      normRoot config.root ≠ str "/" ∧
        ¬(1 < (normRoot config.root).length ∧ hasSuffix (normRoot config.root) (str "\\") = true) := by
  have some_ : name ≠ [] := List.length_pos_iff.mp (by omega)
  have length := root_length config.root
  rcases normRoot_cases (normRoot config.root) with same | ⟨u, whole, rfl | rfl⟩
  · rw [same, relative_joined_iff some_]
    constructor
    · intro noSlash
      refine ⟨fun slash => ?_, fun both => ?_⟩
      · rw [slash] at noSlash
        exact absurd noSlash (by decide)
      · have short := normRoot_single (Or.inr rfl) same both.2
        omega
    · intro fits
      rw [Bool.eq_false_iff]
      intro slash
      apply fits.1
      have short := normRoot_single (Or.inl rfl) same slash
      obtain ⟨init, whole⟩ := hasSuffix_single.mp (slash_single ▸ slash)
      rw [whole, List.length_append, List.length_singleton] at short
      have empty : init = [] := List.length_eq_zero_iff.mp (by omega)
      rw [whole, empty, slash_single]
      rfl
  · -- The slash that the root kept ends the base.
    have trailing : hasSuffix (normRoot config.root) (str "/") = true := by
      rw [slash_single]
      exact hasSuffix_single.mpr ⟨_, whole⟩
    have based : base config = normRoot config.root := by simp [base, trailing]
    have path : normRoot (normRoot config.root) ++ str "/" ++ name = base config ++ name := by
      rw [slash_single, ← whole, based]
    have other : base config ++ name ≠ config.root := by
      intro same
      have lengths := congrArg List.length same
      rw [List.length_append, based] at lengths
      omega
    rw [path, relative_base some_ other]
    have two := normRoot_long whole
    refine iff_of_true rfl ⟨fun alone => ?_, fun both => ?_⟩
    · rw [alone] at two
      exact absurd two (by decide)
    · obtain ⟨init, back⟩ := hasSuffix_single.mp (backslash_single ▸ both.2)
      rw [whole] at back
      exact absurd (List.append_inj' back rfl).2 (by decide)
  · -- The base ends in a backslash and a slash, the path has the slash alone.
    have backslash : hasSuffix (normRoot config.root) (str "\\") = true := by
      rw [backslash_single]
      exact hasSuffix_single.mpr ⟨_, whole⟩
    have noSlash : hasSuffix (normRoot config.root) (str "/") = false := by
      rw [Bool.eq_false_iff]
      intro slash
      obtain ⟨init, back⟩ := hasSuffix_single.mp (slash_single ▸ slash)
      rw [whole] at back
      exact absurd (List.append_inj' back rfl).2 (by decide)
    refine iff_of_false (fun found => ?_) (fun fits => fits.2 ⟨normRoot_long whole, backslash⟩)
    unfold relative at found
    simp only [noSlash, Bool.false_eq_true, if_false] at found
    split_ifs at found with own starts
    · exact some_ (Option.some.inj found).symm
    · obtain ⟨rest, same⟩ := List.isPrefixOf_iff_prefix.mp starts
      have fronts : normRoot (normRoot config.root) ++ (unit '\\' :: (str "/" ++ rest)) =
          normRoot (normRoot config.root) ++ (unit '/' :: name) := by
        have front : normRoot config.root ++ str "/" ++ rest =
            normRoot (normRoot config.root) ++ (unit '\\' :: (str "/" ++ rest)) := by
          conv_lhs => rw [whole]
          simp
        rw [← front, same, slash_single]
        simp
      exact absurd (List.cons.inj (List.append_cancel_left fronts)).1 (by decide)

end

inductive Suffix (p : Planner) : Str → Prop
  | none : Suffix p []
  | br : Suffix p (str ".br")
  | gz : Suffix p (str ".gz")
  | ext (ext : Str) (set : p.config.defaultExt = some ext) : Suffix p (str "." ++ ext)

def indexFile (p : Planner) : Str := str "index." ++ p.config.defaultExt.getD (str "html")

def fallbackFile (p : Planner) : Str := p.config.fallbackTargetFile.getD (str "index.html")

/-- Where a name stands: the root itself, an index file of the root, or anything else below it. -/
inductive Place where
  | root
  | rootIndex
  | below

/-- The paths that the planner derives under the root for the relative part `rel`, each with its
relative name. -/
inductive Names (p : Planner) (rel : Str) : Place → Str → Str → Prop
  | root (empty : rel = []) : Names p rel .root (join p.config.root []) []
  | file (suffix : Str) (some_ : rel ≠ []) (appended : Suffix p suffix) :
      Names p rel .below (join p.config.root rel ++ suffix) (rel ++ suffix)
  | rootIndex (suffix : Str) (empty : rel = []) (appended : Suffix p suffix) :
      Names p rel .rootIndex (join (join p.config.root []) (indexFile p) ++ suffix)
        (indexFile p ++ suffix)
  | index (suffix : Str) (some_ : rel ≠ []) (appended : Suffix p suffix) :
      Names p rel .below (join (join p.config.root rel) (indexFile p) ++ suffix)
        (normRoot rel ++ str "/" ++ indexFile p ++ suffix)
  | errorPage : Names p rel .below (join p.config.root (str "404.html")) (str "404.html")
  | fallback (suffix : Str) (appended : Suffix p suffix) :
      Names p rel .below (join p.config.root (fallbackFile p) ++ suffix) (fallbackFile p ++ suffix)

-- How a root must be spelled for the names of a place to come back.
def Place.Fits (root : Str) : Place → Prop
  | .root => True
  | .rootIndex => normRoot root ≠ str "/" ∧
      ¬(1 < (normRoot root).length ∧ hasSuffix (normRoot root) (str "\\") = true)
  | .below => hasSuffix (normRoot root) (str "/") = false

/-- `rel` is what the target names below the base path, and the target resolves to it. -/
structure RelativePart (config : Config) (target rel : Str) : Prop where
  decoded : ∃ text, Percent.Decodes Percent.FaceValue (pathText target) text ∧
    Under config.baseUrl text rel
  allowed : Allowed rel
  resolved : resolvePath config.root config.baseUrl target = .ok (join config.root rel)

theorem normRoot_under {rel : Str} (allowed : Allowed rel) (some_ : rel ≠ []) (s : Str) :
    normRoot (s ++ str "/" ++ rel) = s ++ str "/" ++ normRoot rel := by
  have whole : s ++ str "/" ++ rel ≠ [] := by simp [some_]
  symm
  rw [← bare_iff whole]
  rcases (bare_iff some_ _).mpr rfl with ⟨u, separator, kept, same⟩ | ⟨same, alone⟩
  · refine Or.inl ⟨u, separator, by simp [kept], ?_⟩
    conv_lhs => rw [same]
    simp
  · refine Or.inr ⟨by rw [same], fun init u joined separator => ?_⟩
    obtain ⟨front, v, last⟩ := (List.eq_nil_or_concat' rel).resolve_left some_
    rw [last, ← List.append_assoc] at joined
    obtain rfl : v = u := by simpa using (List.append_inj' joined rfl).2
    rw [alone front v last separator, List.nil_append] at last
    -- A relative part is no separator alone.
    simp only [isSeparator, Bool.or_eq_true, beq_iff_eq] at separator
    rcases separator with rfl | rfl
    · exact absurd ⟨[], by rw [last]; rfl⟩ allowed.relative
    · exact absurd (by simp [last]) allowed.noBackslash

theorem join_some {root name : Str} (some_ : name ≠ []) :
    join root name = normRoot root ++ str "/" ++ name := by
  rw [join, if_neg some_]

theorem fallbackFile_some {p : Planner} (accepted : validateConfig p.config = .ok ()) :
    fallbackFile p ≠ [] ∧ hasPrefix (fallbackFile p) (str "/") = false := by
  have plain : str "index.html" ≠ [] ∧ hasPrefix (str "index.html") (str "/") = false := by decide
  unfold fallbackFile Config.fallbackTargetFile
  split_ifs
  · exact plain
  · cases set : p.config.tryFiles with
    | none => exact plain
    | some file =>
      obtain ⟨path, checked⟩ := validateConfig_tryFiles accepted set
      simp only [validateTryFilesPath, StateRun.except_bind_ok, StateRun.except_ite_ok,
        StateRun.except_throw_ok, and_false, false_or] at checked
      exact ⟨checked.1, by simpa using checked.2.1⟩

section

variable {p : Planner} {rel path name : Str} {place : Place}

theorem indexFile_front (p : Planner) : ∃ rest, indexFile p = unit 'i' :: rest ∧ 1 < rest.length :=
  ⟨str "ndex." ++ p.config.defaultExt.getD (str "html"), rfl, by
    have five : (str "ndex.").length = 5 := by decide
    rw [List.length_append]
    omega⟩

theorem Names.relative_iff (names : Names p rel place path name)
    (accepted : validateConfig p.config = .ok ()) (allowed : Allowed rel) :
    relative p.config path = some name ↔ place.Fits p.config.root := by
  obtain ⟨rest, front, long⟩ := indexFile_front p
  have index : indexFile p ≠ [] := by simp [front]
  cases names with
  | root empty =>
    refine iff_of_true ?_ trivial
    simp [relative, join]
  | file suffix some_ appended =>
    rw [join_some some_, List.append_assoc]
    exact relative_joined_iff (by simp [some_])
  | rootIndex suffix empty appended =>
    have root : join p.config.root [] = normRoot p.config.root := rfl
    rw [join_some index, root, List.append_assoc]
    apply relative_index_iff
    rw [List.length_append, front, List.length_cons]
    omega
  | index suffix some_ appended =>
    rw [join_some index, join_some some_, normRoot_under allowed some_]
    simp only [List.append_assoc]
    rw [← List.append_assoc]
    exact relative_joined_iff (by simp [index])
  | errorPage =>
    rw [join_some (by decide)]
    exact relative_joined_iff (by decide)
  | fallback suffix appended =>
    have some_ := (fallbackFile_some accepted).1
    rw [join_some some_, List.append_assoc]
    exact relative_joined_iff (by simp [some_])

theorem noSlash_append {s t : Str} (some_ : s ≠ []) (front : hasPrefix s (str "/") = false) :
    hasPrefix (s ++ t) (str "/") = false := by
  obtain ⟨u, rest, rfl⟩ := List.exists_cons_of_ne_nil some_
  exact front

theorem Names.noSlash (names : Names p rel place path name)
    (accepted : validateConfig p.config = .ok ()) (allowed : Allowed rel) :
    hasPrefix name (str "/") = false := by
  obtain ⟨rest, front, -⟩ := indexFile_front p
  have index : indexFile p ≠ [] ∧ hasPrefix (indexFile p) (str "/") = false := by
    rw [front]
    exact ⟨by simp, rfl⟩
  have relative : hasPrefix rel (str "/") = false := by
    rw [Bool.eq_false_iff]
    exact fun starts => allowed.relative (List.isPrefixOf_iff_prefix.mp starts)
  cases names with
  | root => rfl
  | file suffix some_ => exact noSlash_append some_ relative
  | rootIndex => exact noSlash_append index.1 index.2
  | index suffix some_ =>
    have kept := normRoot_kept some_
    have first : hasPrefix (normRoot rel) (str "/") = false := by
      rcases normRoot_cases rel with same | ⟨u, whole, -⟩
      · rwa [same]
      · obtain ⟨v, rest, shape⟩ := List.exists_cons_of_ne_nil kept
        rw [whole, shape] at relative
        rw [shape]
        exact relative
    simp only [List.append_assoc]
    exact noSlash_append kept first
  | errorPage => decide
  | fallback =>
    have file := fallbackFile_some accepted
    exact noSlash_append file.1 file.2

end

theorem choice_suffix {p : Planner} {path : Str} {index : Bool} {choice : Choice}
    (member : choice ∈ p.representations path index) :
    ∃ suffix, Suffix p suffix ∧ choice.path = path ++ suffix := by
  cases represents member with
  | same _ same => exact ⟨[], .none, by rw [List.append_nil, same]⟩
  | br => exact ⟨_, .br, rfl⟩
  | gz => exact ⟨_, .gz, rfl⟩
  | ext ext set => exact ⟨_, .ext ext set, List.append_assoc _ _ _⟩

def RootLost (p : Planner) (past : Past) : Prop :=
  ∃ answer, past.head? = some (opened (join p.config.root []) answer) ∧ ¬isDirectory answer

theorem run_names {config : Config} {request : Request} {mime : MimeRegistry} {past : Past}
    {query : Query} {next : query.Answer → Step} {rel path : Str}
    (part : RelativePart config request.target rel)
    (run : Run (start config request mime) past (.ask query next))
    (asked : query = .opens path ∨ query = .lists path) :
    (∃ place name, Names ⟨config, request, mime⟩ rel place path name) ∨
      RootLost ⟨config, request, mime⟩ past := by
  have direct (suffix : Str) (appended : Suffix ⟨config, request, mime⟩ suffix) (some_ : rel ≠ []) :
      Names ⟨config, request, mime⟩ rel .below (join config.root rel ++ suffix) (rel ++ suffix) :=
    .file suffix some_ appended
  -- The path that the target resolves to is named `rel`.
  have target : ∃ place name, Names ⟨config, request, mime⟩ rel place (join config.root rel) name := by
    by_cases empty : rel = []
    · subst empty
      exact ⟨.root, [], .root rfl⟩
    · have names := direct [] .none empty
      rw [List.append_nil] at names
      exact ⟨_, _, names⟩
  have same {found : Str} (resolved : resolvePath config.root config.baseUrl request.target = .ok found) :
      found = join config.root rel := Except.ok.inj (resolved.symm.trans part.resolved)
  cases run_asks run with
  | errorPage =>
    obtain rfl : join config.root (str "404.html") = path := by simpa using asked
    exact Or.inl ⟨_, _, .errorPage⟩
  | resolved found resolved =>
    obtain rfl : found = path := by simpa using asked
    exact Or.inl (same resolved ▸ target)
  | listing found resolved =>
    obtain rfl : found = path := by simpa using asked
    exact Or.inl (same resolved ▸ target)
  | magic => simp at asked
  | sample => simp at asked
  | candidate tried index choice i source chosen skipped =>
    obtain rfl : choice.path = path := by simpa using asked
    obtain ⟨suffix, appended, whole⟩ := choice_suffix (List.mem_of_getElem? chosen)
    rw [whole]
    cases source with
    | direct _ answer began notDirectory =>
      obtain rfl := same began.1
      by_cases empty : rel = []
      · subst empty
        exact Or.inr ⟨answer, began.2, notDirectory⟩
      · exact Or.inl ⟨_, _, direct suffix appended empty⟩
    | index found answer began =>
      obtain rfl := same began.1
      by_cases empty : rel = []
      · subst empty
        exact Or.inl ⟨_, _, .rootIndex suffix rfl appended⟩
      · exact Or.inl ⟨_, _, .index suffix empty appended⟩
    | fallback => exact Or.inl ⟨_, _, .fallback suffix appended⟩

/-- Every path of a plan has a name under the root, and comes back as this name where the spelling
of the root allows it. -/
theorem relative_names (config : Config) (request : Request) (mime : MimeRegistry) (rel : Str)
    (accepted : validateConfig config = .ok ()) (part : RelativePart config request.target rel) :
    (∀ place path name, Names ⟨config, request, mime⟩ rel place path name →
      (relative config path = some name ∧ hasPrefix name (str "/") = false ↔
        place.Fits config.root)) ∧
      ∀ past query next, Run (start config request mime) past (.ask query next) →
        ∀ path, query = .opens path ∨ query = .lists path →
          (∃ place name, Names ⟨config, request, mime⟩ rel place path name) ∨
            RootLost ⟨config, request, mime⟩ past := by
  refine ⟨fun place path name names => ?_, fun past query next run path asked =>
    run_names part run asked⟩
  rw [and_iff_left (names.noSlash accepted part.allowed)]
  exact names.relative_iff accepted part.allowed

def siteConfig (root : String) : Config := .middlewareDefault (str root)

def readme : Request where
  meth := .get
  target := str "/a.txt"
  headers := ∅

theorem readme_part {root : String} (resolved : resolvePath (siteConfig root).root
    (siteConfig root).baseUrl (str "/a.txt") = .ok (join (siteConfig root).root (str "a.txt"))) :
    RelativePart (siteConfig root) readme.target (str "a.txt") where
  decoded := by
    have base : (siteConfig root).baseUrl = str "/" := rfl
    refine ⟨str "/a.txt", (decodePercent_iff _ _).mp (by decide +kernel), Or.inr ?_⟩
    rw [base]
    decide
  allowed := (validateRelativePath_iff _).mp (by decide +kernel)
  resolved := resolved

theorem relative_names_srv : relative (siteConfig "/srv/") (str "/srv/a.txt") = some (str "a.txt") ∧
    hasPrefix (str "a.txt") (str "/") = false := by
  have names : Names ⟨siteConfig "/srv/", readme, .new⟩ (str "a.txt") .below
      (join (str "/srv/") (str "a.txt") ++ []) (str "a.txt" ++ []) := .file [] (by decide) .none
  have path : join (str "/srv/") (str "a.txt") = str "/srv/a.txt" := by decide
  rw [List.append_nil, List.append_nil, path] at names
  have part := @readme_part "/srv/" (by decide +kernel)
  exact ((relative_names (siteConfig "/srv/") readme .new (str "a.txt") (by decide +kernel) part).1
    _ _ _ names).mpr (by decide : hasSuffix (normRoot (str "/srv/")) (str "/") = false)

-- Under the root of one slash every name comes back with a slash before it.
theorem lone_slash : ¬∀ (config : Config) (request : Request) (mime : MimeRegistry) (rel : Str),
    validateConfig config = .ok () → RelativePart config request.target rel →
    ∀ place path name, Names ⟨config, request, mime⟩ rel place path name →
      relative config path = some name ∧ hasPrefix name (str "/") = false := by
  intro always
  have names : Names ⟨siteConfig "/", readme, .new⟩ (str "a.txt") .below
      (join (str "/") (str "a.txt") ++ []) (str "a.txt" ++ []) := .file [] (by decide) .none
  have part := @readme_part "/" (by decide +kernel)
  have returned := (always (siteConfig "/") readme .new (str "a.txt") (by decide +kernel) part
    _ _ _ names).1
  exact absurd returned (by decide +kernel)

end HttpServer.Engine

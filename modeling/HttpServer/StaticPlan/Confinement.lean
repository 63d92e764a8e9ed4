import HttpServer.StaticPlan.Runs

set_option autoImplicit false

namespace HttpServer.StaticPlan

open Unicode Text HttpServer.Core Dialogue

def components (path : Str) : List Str := split path (unit '/')

def lastComponent (path : Str) : Str := (components path).getLastD []

def Portable (path : Str) : Prop := 0 ∉ path ∧ unit '\\' ∉ path

instance (path : Str) : Decidable (Portable path) := inferInstanceAs (Decidable (_ ∧ _))

structure Relative (rel : Str) : Prop where
  portable : Portable rel
  noParent : str ".." ∉ components rel

/-- An extension that stays in one component, or goes on in later ones that are harmless. -/
structure SafeExt (ext : Str) : Prop where
  portable : Portable ext
  noParent : str ".." ∉ (components ext).tail

def Below (root path : Str) : Prop := ∃ rel, path = join root [] ++ str "/" ++ rel ∧ Relative rel

def Confined (root path : Str) : Prop := path = join root [] ∨ Below root path

theorem portable_append {s t : Str} : Portable (s ++ t) ↔ Portable s ∧ Portable t := by
  simp only [Portable, List.mem_append, not_or]
  tauto

theorem components_slash (s t : Str) :
    components (s ++ str "/" ++ t) = components s ++ components t := by
  obtain ⟨front, last, first, rest, whole, pieces, joined⟩ := split_append s (str "/" ++ t) (unit '/')
  have behind : split (str "/" ++ t) (unit '/') = [] :: split t (unit '/') := by
    change List.splitOn (unit '/') (unit '/' :: t) = _
    rw [List.splitOn_cons_eq_if_modifyHead, if_pos (by simp)]
    rfl
  rw [behind] at pieces
  obtain ⟨rfl, rfl⟩ := List.cons.inj pieces
  rw [components, List.append_assoc, joined, components, whole]
  simp [components]

theorem lastComponent_slash (s t : Str) : lastComponent (s ++ str "/" ++ t) = lastComponent t := by
  have some : components t ≠ [] := List.splitOn_ne_nil _ _
  simp only [lastComponent, components_slash, List.getLastD_eq_getLast?,
    List.getLast?_append_of_ne_nil _ some]

theorem relative_slash {s t : Str} : Relative (s ++ str "/" ++ t) ↔ Relative s ∧ Relative t := by
  constructor
  · intro relative
    obtain ⟨portable, noParent⟩ := relative
    rw [components_slash, List.mem_append, not_or] at noParent
    rw [portable_append, portable_append] at portable
    exact ⟨⟨portable.1.1, noParent.1⟩, ⟨portable.2, noParent.2⟩⟩
  · intro both
    refine ⟨portable_append.mpr ⟨portable_append.mpr ⟨both.1.portable, ?_⟩, both.2.portable⟩, ?_⟩
    · exact ⟨by decide, by decide⟩
    · rw [components_slash, List.mem_append, not_or]
      exact ⟨both.1.noParent, both.2.noParent⟩

-- Text behind a relative part spoils it in the last component or in a later one.
theorem relative_append {s t first : Str} {rest : List Str} (relative : Relative s)
    (portable : Portable t) (pieces : components t = first :: rest) (later : str ".." ∉ rest)
    (joint : lastComponent s ++ first ≠ str "..") : Relative (s ++ t) := by
  obtain ⟨front, last, _, _, whole, same, joined⟩ := split_append s t (unit '/')
  obtain ⟨rfl, rfl⟩ := List.cons.inj (same.symm.trans pieces)
  refine ⟨portable_append.mpr ⟨relative.portable, portable⟩, ?_⟩
  have noParent := relative.noParent
  rw [components, whole, List.mem_append, not_or] at noParent
  have ends : lastComponent s = last := by simp [lastComponent, components, whole]
  rw [ends] at joint
  rw [components, joined, List.mem_append, List.mem_cons]
  rintro (before | now | after)
  · exact noParent.1 before
  · exact joint now.symm
  · exact later after

theorem relative_ext {ext : Str} (rel : Str) (relative : Relative rel) (safe : SafeExt ext)
    (joint : lastComponent rel ++ str "." ++ (components ext).headD [] ≠ str "..") :
    Relative (rel ++ (str "." ++ ext)) := by
  obtain ⟨front, last, first, rest, dot, pieces, joined⟩ := split_append (str ".") ext (unit '/')
  obtain ⟨rfl, rfl⟩ : front = [] ∧ last = str "." := by
    have single : split (str ".") (unit '/') = [] ++ [str "."] := by decide
    exact List.append_singleton_inj.mp (dot.symm.trans single)
  have noParent := safe.noParent
  rw [components, pieces] at noParent joint
  rw [List.headD_cons, List.append_assoc] at joint
  have portable : Portable (str "." ++ ext) := portable_append.mpr ⟨by decide, safe.portable⟩
  exact relative_append relative portable joined noParent joint

theorem relative_suffix {s suffix : Str} (relative : Relative s) (portable : Portable suffix)
    (single : components suffix = [suffix]) (visible : ¬[unit '.'] <:+ suffix)
    (some : suffix ≠ []) : Relative (s ++ suffix) := by
  apply relative_append relative portable single (by simp)
  intro same
  apply visible
  obtain ⟨init, u, rfl⟩ := List.eq_nil_or_concat' suffix |>.resolve_left some
  have last := congrArg List.getLast? same
  rw [← List.append_assoc, List.getLast?_concat] at last
  obtain rfl : u = unit '.' := Option.some.inj last
  exact List.suffix_append _ _

theorem below_append {root path suffix : Str} (below : Below root path)
    (keeps : ∀ rel, path = join root [] ++ str "/" ++ rel → Relative rel → Relative (rel ++ suffix)) :
    Below root (path ++ suffix) := by
  obtain ⟨rel, rfl, relative⟩ := below
  exact ⟨rel ++ suffix, by simp, keeps rel rfl relative⟩

theorem below_br {root path : Str} (below : Below root path) : Below root (path ++ str ".br") :=
  below_append below fun _ _ relative =>
    relative_suffix relative (by decide) (by decide) (by decide) (by decide)

theorem below_gz {root path : Str} (below : Below root path) : Below root (path ++ str ".gz") :=
  below_append below fun _ _ relative =>
    relative_suffix relative (by decide) (by decide) (by decide) (by decide)

theorem below_join {root rel : Str} (relative : Relative rel) (some : rel ≠ []) :
    Below root (join root rel) :=
  ⟨rel, by simp [join, some], relative⟩

theorem relative_of_validate {rel : Str} (valid : validateRelativePath rel = true) :
    Relative rel := by
  unfold validateRelativePath at valid
  by_cases empty : rel = []
  · subst empty
    exact ⟨by decide, by decide⟩
  · rw [if_neg empty] at valid
    split_ifs at valid with refused
    simp only [Bool.or_eq_true, not_or, Bool.not_eq_true] at refused
    refine ⟨⟨?_, ?_⟩, ?_⟩
    · intro nul
      simp [contains_single.mpr nul] at refused
    · intro backslash
      have found : contains rel (str "\\") = true := contains_single.mpr backslash
      simp [found] at refused
    · intro parent
      simp only [Bool.not_eq_true', List.any_eq_false] at valid
      exact valid _ parent (by decide)

theorem resolvePath_ok {root baseUrl target path : Str}
    (resolved : resolvePath root baseUrl target = .ok path) : Confined root path := by
  simp only [resolvePath, StateRun.except_bind_ok, StateRun.except_ite_ok,
    StateRun.except_throw_ok, false_and, exists_false, and_false, false_or] at resolved
  obtain ⟨-, decoded, -, -, resolved⟩ := resolved
  cases stripped : matchAndStripBaseUrl baseUrl decoded with
  | none => simp [stripped, StateRun.except_throw_ok] at resolved
  | some relative =>
    simp only [stripped, StateRun.except_ite_ok, StateRun.except_throw_ok, and_false, false_or,
      Bool.not_eq_true', Bool.not_eq_false] at resolved
    obtain ⟨valid, -, same⟩ := resolved
    obtain rfl := Except.ok.inj same
    split_ifs with empty
    · exact Or.inl rfl
    · exact Or.inr ⟨relative, rfl, relative_of_validate valid⟩

theorem tryFiles_parts {parts : List Str} (checked : validateTryFilesPath.parts parts = .ok ()) :
    str ".." ∉ parts := by
  induction parts with
  | nil => simp
  | cons part rest ih =>
    simp only [validateTryFilesPath.parts, StateRun.except_ite_ok, StateRun.except_throw_ok,
      and_false, false_or] at checked
    obtain ⟨noDots, -, checked⟩ := checked
    rw [List.mem_cons, not_or]
    exact ⟨fun same => noDots (Or.inl same.symm), ih checked⟩

theorem relative_of_tryFiles {tf path : Str} (checked : validateTryFilesPath tf = .ok path) :
    Relative tf ∧ tf ≠ [] := by
  simp only [validateTryFilesPath, StateRun.except_bind_ok, StateRun.except_ite_ok,
    StateRun.except_throw_ok, and_false, false_or] at checked
  obtain ⟨some, -, clean, -, _, parts, -⟩ := checked
  simp only [Bool.or_eq_true, not_or] at clean
  obtain ⟨⟨⟨nul, backslash⟩, -⟩, -⟩ := clean
  refine ⟨⟨⟨fun member => nul (contains_single.mpr member), ?_⟩, tryFiles_parts parts⟩, some⟩
  exact fun member => backslash (contains_single.mpr member)

theorem fallback_below {c : Config} (valid : validateConfig c = .ok ()) :
    Below c.root (join c.root (c.fallbackTargetFile.getD (str "index.html"))) := by
  have plain : Below c.root (join c.root (str "index.html")) :=
    below_join ⟨by decide, by decide⟩ (by decide)
  unfold Config.fallbackTargetFile
  split_ifs with spa
  · exact plain
  · cases some : c.tryFiles with
    | none => exact plain
    | some tf =>
      obtain ⟨path, checked⟩ := validateConfig_tryFiles valid some
      obtain ⟨relative, notEmpty⟩ := relative_of_tryFiles checked
      exact below_join relative notEmpty

-- The client takes a compression that the configuration offers.
def Planner.negotiates (p : Planner) : Bool :=
  let accept := (p.header (str "accept-encoding")).getD []
  p.config.brotli && accepts accept br || p.config.gzip && accepts accept gzip

inductive Represents (p : Planner) (path : Str) (index : Bool) : Choice → Prop
  | same (choice : Choice) (same : choice.path = path) : Represents p path index choice
  | br (negotiated : p.negotiates = true) :
      Represents p path index ⟨path ++ str ".br", path, some br⟩
  | gz (negotiated : p.negotiates = true) :
      Represents p path index ⟨path ++ str ".gz", path, some gzip⟩
  | ext (ext : Str) (set : p.config.defaultExt = some ext) (direct : index = false)
      (plain : hasFileExtension path = false) :
      Represents p path index ⟨path ++ str "." ++ ext, path ++ str "." ++ ext, none⟩

theorem forced_path {c : Config} {path : Str} {index : Bool} {choice : Choice}
    (member : choice ∈ forcedChoices c path index) : choice.path = path := by
  unfold forcedChoices at member
  split_ifs at member <;> simp_all

theorem represents {p : Planner} {path : Str} {index : Bool} {choice : Choice}
    (member : choice ∈ p.representations path index) : Represents p path index choice := by
  simp only [Planner.representations, List.mem_append] at member
  rcases member with (((forced | compressed) | compressed) | plain) | ext
  · exact .same choice (forced_path forced)
  · split_ifs at compressed with negotiated
    · obtain rfl := List.mem_singleton.mp compressed
      exact .br (by simp [Planner.negotiates, negotiated])
    · simp at compressed
  · split_ifs at compressed with negotiated
    · obtain rfl := List.mem_singleton.mp compressed
      exact .gz (by simp [Planner.negotiates, negotiated])
    · simp at compressed
  · obtain rfl := List.mem_singleton.mp plain
    exact .same _ rfl
  · unfold defaultChoices at ext
    cases set : p.config.defaultExt with
    | none => simp [set] at ext
    | some e =>
      simp only [set] at ext
      split_ifs at ext with direct
      · obtain rfl := List.mem_singleton.mp ext
        simp only [Bool.and_eq_true, Bool.not_eq_true'] at direct
        exact .ext e set direct.1 direct.2
      · simp at ext

theorem forced_cases (c : Config) (path : Str) (index : Bool) :
    forcedChoices c path index = [] ∨ ∃ choice, forcedChoices c path index = [choice] ∧
      choice.path = path ∧ (choice.encoding = some gzip →
        c.forceContentEncoding = true ∧ hasSuffix path (str ".gz") = true ∧
          choice.represented ≠ path) := by
  unfold forcedChoices
  split_ifs with enabled brotli gz
  · refine Or.inr ⟨_, rfl, rfl, fun same => absurd (Option.some.inj same) (by decide)⟩
  · simp only [Bool.and_eq_true, decide_eq_true_eq] at enabled gz
    refine Or.inr ⟨_, rfl, rfl, fun _ => ⟨enabled.2, gz.1, fun same => ?_⟩⟩
    have short := congrArg List.length same
    rw [List.length_take] at short
    omega
  · exact Or.inl rfl
  · exact Or.inl rfl

theorem forced_denied {p : Planner} {past : Past} {path : Str} {choice : Choice} {i : Nat}
    (chosen : (p.representations path false)[i]? = some choice)
    (skipped : ∀ j < i, ∀ earlier, (p.representations path false)[j]? = some earlier →
      Skipped p past j earlier) (other : choice.path ≠ path) :
    forcedChoices p.config path false = [] ∨ Denied past path := by
  rcases forced_cases p.config path false with none | ⟨forced, single, same, compressed⟩
  · exact Or.inl none
  · have first : (p.representations path false)[0]? = some forced := by
      simp [Planner.representations, single]
    have later : 0 < i := by
      apply Nat.pos_of_ne_zero
      rintro rfl
      exact other (Option.some.inj (chosen.symm.trans first) ▸ same)
    rcases skipped 0 later forced first with denied | ⟨encoding, unchanged⟩
    · exact Or.inr (same ▸ denied)
    · obtain ⟨enabled, suffix, stripped⟩ := compressed encoding
      simp [enabled, same, suffix, stripped] at unchanged

theorem plain_split (p : Planner) (path : Str) (index : Bool) :
    ∃ front back, p.representations path index = front ++ ⟨path, path, none⟩ :: back ∧
      ∀ choice ∈ front, choice.encoding ≠ none := by
  refine ⟨_, _, by rw [Planner.representations, List.append_assoc, List.singleton_append], ?_⟩
  intro choice member
  simp only [List.mem_append] at member
  rcases member with (forced | compressed) | compressed
  · unfold forcedChoices at forced
    split_ifs at forced <;> simp_all
  · split_ifs at compressed <;> simp_all
  · split_ifs at compressed <;> simp_all

theorem plain_denied {p : Planner} {past : Past} {path : Str} {choice : Choice} {i : Nat}
    (chosen : (p.representations path false)[i]? = some choice)
    (skipped : ∀ j < i, ∀ earlier, (p.representations path false)[j]? = some earlier →
      Skipped p past j earlier) (other : choice.path ≠ path) (plain : choice.encoding = none) :
    Denied past path := by
  obtain ⟨front, back, whole, compressed⟩ := plain_split p path false
  rw [whole] at chosen skipped
  have later : front.length < i := by
    by_contra early
    rcases Nat.lt_or_eq_of_le (Nat.le_of_not_lt early) with inside | rfl
    · rw [List.getElem?_append_left inside] at chosen
      exact compressed choice (List.mem_of_getElem? chosen) plain
    · apply other
      rw [List.getElem?_append_right (Nat.le_refl _), Nat.sub_self] at chosen
      obtain rfl := Option.some.inj chosen
      rfl
  rcases skipped front.length later ⟨path, path, none⟩ (by simp) with denied | ⟨encoding, -⟩
  · exact denied
  · cases encoding

theorem relative_index {ext : Str} (safe : SafeExt ext) : Relative (str "index." ++ ext) := by
  apply relative_ext (str "index") ⟨by decide, by decide⟩ safe
  intro same
  have long := congrArg List.length same
  have lower : (lastComponent (str "index") ++ str ".").length = 6 := by decide
  have upper : (str "..").length = 2 := by decide
  rw [List.length_append] at long
  omega

theorem normRoot_cases (path : Str) : normRoot path = path ∨
    ∃ u, path = normRoot path ++ [u] ∧ (u = unit '/' ∨ u = unit '\\') := by
  unfold normRoot
  split_ifs with trailing
  · obtain ⟨init, u, rfl⟩ := List.eq_nil_or_concat' path |>.resolve_left (by
      rintro rfl
      exact absurd trailing (by decide))
    refine Or.inr ⟨u, by simp, ?_⟩
    simp only [hasSuffix, Bool.and_eq_true, Bool.or_eq_true, List.isSuffixOf_iff_suffix] at trailing
    rcases trailing.2 with ⟨_, slash⟩ | ⟨_, slash⟩
    · exact Or.inl (List.cons.inj (List.append_inj' slash rfl).2.symm).1
    · exact Or.inr (List.cons.inj (List.append_inj' slash rfl).2.symm).1
  · exact Or.inl rfl

-- A trailing slash of the relative part is taken for one of the root.
theorem normRoot_below {root path : Str} (below : Below root path) :
    Confined root (normRoot path) := by
  rcases normRoot_cases path with same | ⟨u, trailing, known⟩
  · exact Or.inr (same.symm ▸ below)
  · obtain ⟨rel, whole, relative⟩ := below
    rw [trailing] at whole
    rcases List.eq_nil_or_concat' rel with rfl | ⟨init, v, rfl⟩
    · rw [List.append_nil] at whole
      exact Or.inl (List.append_inj_left' whole rfl)
    · rw [← List.append_assoc] at whole
      obtain ⟨front, last⟩ := List.append_inj' whole rfl
      obtain rfl : u = v := by simpa using last
      refine Or.inr ⟨init, front, ?_⟩
      rcases known with rfl | rfl
      · have behind : Relative (init ++ str "/" ++ []) := by rwa [List.append_nil]
        exact (relative_slash.mp behind).1
      · exact absurd (by simp) relative.portable.2

theorem index_below {root path ext : Str} (confined : Confined root path) (safe : SafeExt ext)
    (single : path = join root [] → normRoot path = path) :
    Below root (join path (str "index." ++ ext)) := by
  have joined : join path (str "index." ++ ext) =
      normRoot path ++ str "/" ++ (str "index." ++ ext) := by
    rw [join, if_neg (by simp [str])]
  have inside : Confined root (normRoot path) := by
    rcases confined with same | below
    · exact Or.inl ((single same).trans same)
    · exact normRoot_below below
  rw [joined]
  rcases inside with same | ⟨rel, norm, relative⟩
  · exact ⟨_, by rw [same], relative_index safe⟩
  · refine ⟨rel ++ str "/" ++ (str "index." ++ ext), by rw [norm]; simp, ?_⟩
    exact relative_slash.mpr ⟨relative, relative_index safe⟩

/-- What keeps a run under the root: no suffix is put behind the root itself, and the default
extension does not lead out of its directory where it is used. -/
structure Contained (p : Planner) (past : Past) : Prop where
  index : ∀ path answer, Began p past path answer → isDirectory answer →
    p.config.autoIndex = true → hasSuffix p.rawPath (str "/") = true →
    SafeExt (p.config.defaultExt.getD (str "html")) ∧
      (path = join p.config.root [] → normRoot path = path)
  compressed : ∀ answer, Began p past (join p.config.root []) answer → ¬isDirectory answer →
    forcedChoices p.config (join p.config.root []) false = [] ∨
      Denied past (join p.config.root []) → p.negotiates = false
  ext : ∀ path answer ext, Began p past path answer → ¬isDirectory answer →
    p.config.defaultExt = some ext → hasFileExtension path = false → Denied past path →
    path ≠ join p.config.root [] ∧ SafeExt ext ∧
      lastComponent path ++ str "." ++ (components ext).headD [] ≠ str ".."

theorem direct_confined {p : Planner} {past : Past} {path : Str} {answer : Option File}
    {choice : Choice} {i : Nat} (contained : Contained p past) (began : Began p past path answer)
    (notDirectory : ¬isDirectory answer)
    (chosen : (p.representations path false)[i]? = some choice)
    (skipped : ∀ j < i, ∀ earlier, (p.representations path false)[j]? = some earlier →
      Skipped p past j earlier) : Confined p.config.root choice.path := by
  have confined := resolvePath_ok began.1
  -- Behind the root only a suffix that is never tried would follow.
  have suffixed (other : choice.path ≠ path) (negotiated : p.negotiates = true) :
      Below p.config.root path := by
    rcases confined with rfl | below
    · have never := contained.compressed answer began notDirectory
        (forced_denied chosen skipped other)
      simp [never] at negotiated
    · exact below
  cases represents (List.mem_of_getElem? chosen) with
  | same _ same => exact same.symm ▸ confined
  | br negotiated => exact Or.inr (below_br (suffixed (by simp [str]) negotiated))
  | gz negotiated => exact Or.inr (below_gz (suffixed (by simp [str]) negotiated))
  | ext ext set direct plain =>
    have denied := plain_denied chosen skipped (by simp [str]) rfl
    obtain ⟨notRoot, safe, joint⟩ :=
      contained.ext path answer ext began notDirectory set plain denied
    obtain ⟨rel, rfl, relative⟩ := confined.resolve_left notRoot
    rw [lastComponent_slash] at joint
    exact Or.inr ⟨rel ++ (str "." ++ ext), by simp, relative_ext rel relative safe joint⟩

theorem run_confined {config : Config} {request : Request} {mime : MimeRegistry} {past : Past}
    {query : Query} {next : query.Answer → Step} (valid : validateConfig config = .ok ())
    (run : Run (start config request mime) past (.ask query next))
    (contained : Contained ⟨config, request, mime⟩ past) :
    ∀ path, query = .opens path ∨ query = .lists path → Confined config.root path := by
  intro path asked
  cases run_asks run with
  | errorPage =>
    obtain rfl : join config.root (str "404.html") = path := by simpa using asked
    exact Or.inr (below_join ⟨by decide, by decide⟩ (by decide))
  | resolved found resolved =>
    obtain rfl : found = path := by simpa using asked
    exact resolvePath_ok resolved
  | listing found resolved =>
    obtain rfl : found = path := by simpa using asked
    exact resolvePath_ok resolved
  | magic => simp at asked
  | sample => simp at asked
  | candidate tried index choice i source chosen skipped =>
    obtain rfl : choice.path = path := by simpa using asked
    have member := List.mem_of_getElem? chosen
    have indexed {name : Str} (below : Below config.root name)
        (member : choice ∈ Planner.representations ⟨config, request, mime⟩ name true) :
        Confined config.root choice.path := by
      cases represents member with
      | same _ same => exact Or.inr (same.symm ▸ below)
      | br => exact Or.inr (below_br below)
      | gz => exact Or.inr (below_gz below)
      | ext _ _ direct => cases direct
    cases source with
    | direct path answer began notDirectory =>
      exact direct_confined contained began notDirectory chosen skipped
    | index path answer began directory enabled slash =>
      obtain ⟨safe, single⟩ := contained.index path answer began directory enabled slash
      exact indexed (index_below (resolvePath_ok began.1) safe single) member
    | fallback => exact indexed (fallback_below valid) member

def pageConfig : Config := .middlewareDefault (str "/site")

def pageRequest (target : String) : Request where
  meth := .get
  target := str target
  headers := OrderedMap.ofList [(str "accept-encoding", str "gzip")]

def pagePast : Past :=
  [opened (str "/site/page") none, opened (str "/site/page.gz") none,
    opened (str "/site/page") none]

theorem page_contained : Contained ⟨pageConfig, pageRequest "/page", .new⟩ pagePast := by
  have begins {path : Str} {answer : Option File}
      (began : Began ⟨pageConfig, pageRequest "/page", .new⟩ pagePast path answer) :
      path = str "/site/page" ∧ answer = none := by
    have first := Option.some.inj began.2
    cases first
    exact ⟨rfl, rfl⟩
  constructor
  · intro path answer began directory
    obtain ⟨-, rfl⟩ := begins began
    exact directory.elim
  · intro answer began
    exact absurd (begins began).1 (by decide)
  · intro path answer ext began _ set
    obtain ⟨rfl, -⟩ := begins began
    obtain rfl : str "html" = ext := Option.some.inj set
    intro _ _
    exact ⟨by decide, ⟨by decide, by decide⟩, by decide⟩

theorem run_confined_page : Confined (str "/site") (str "/site/page.html") := by
  obtain ⟨next, run⟩ : ∃ next, Run (start pageConfig (pageRequest "/page") .new) pagePast
      (.ask (.opens (str "/site/page.html")) next) := run_of_query (by decide +kernel)
  exact run_confined (by decide +kernel) run page_contained _ (Or.inl rfl)

-- The host no longer knows the root when it is asked for it.
theorem run_escapes : ¬∀ (config : Config) (request : Request) (mime : MimeRegistry) (past : Past)
    (query : Query) (next : query.Answer → Step), validateConfig config = .ok () →
    Run (start config request mime) past (.ask query next) →
    ∀ path, query = .opens path ∨ query = .lists path → Confined config.root path := by
  intro confined
  obtain ⟨next, run⟩ : ∃ next, Run (start pageConfig (pageRequest "/") .new)
      [opened (str "/site") none] (.ask (.opens (str "/site.gz")) next) :=
    run_of_query (by decide +kernel)
  rcases confined _ _ _ _ _ _ (by decide +kernel) run _ (Or.inl rfl) with same | ⟨rel, same, -⟩
  · exact absurd same (by decide)
  · have behind : some (unit '.') = some (unit '/') := congrArg (·[5]?) same
    exact absurd behind (by decide)

end HttpServer.StaticPlan

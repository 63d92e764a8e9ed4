import HttpServer.StaticPlan.Runs
import HttpServer.Core.Resolution

set_option autoImplicit false

namespace HttpServer.StaticPlan

open Unicode Text HttpServer.Core Dialogue

-- `rest` is what stands behind the last `u` of `text`, all of it where there is none.
def Behind (u : UInt16) (text rest : Str) : Prop :=
  u ∉ rest ∧ (text = rest ∨ ∃ front, text = front ++ u :: rest)

/-- Whatever the registry holds, it is asked for what stands behind the last dot of the last
component. -/
def TypedByName (path : Str) : Prop :=
  ∀ name ext, Behind (unit '/') path name → Behind (unit '.') name ext →
    ∀ (mime : MimeRegistry) (otherwise : Str),
      mime.lookup path otherwise = (mime.table.get (toLower ext)).getD otherwise

-- A dot that is not the first character of the last component makes an extension.
def DecidedByName (path : Str) : Prop :=
  ∀ name, Behind (unit '/') path name →
    (hasFileExtension path = true ↔
      ∃ stem ext, stem ≠ [] ∧ unit '.' ∉ ext ∧ name = stem ++ unit '.' :: ext)

-- A file name may hold these two; in a reference they end the path.
def Clean (path : Str) : Prop := unit '?' ∉ path ∧ unit '#' ∉ path

def Plain (path : Str) : Prop :=
  Clean path ∧ ∀ name, Behind (unit '/') path name → unit '\\' ∉ name

-- The name has no extension, so that the default one is added.
def Bare (path : Str) : Prop :=
  ∀ name, Behind (unit '/') path name →
    ¬∃ stem ext, stem ≠ [] ∧ unit '.' ∉ ext ∧ name = stem ++ unit '.' :: ext

/-- The path that a run turns to is plain, with the default extension as well where that is
added. -/
structure Planner.Plain (p : Planner) (path : Str) (index : Bool) : Prop where
  itself : StaticPlan.Plain path
  extended : index = false → Bare path → ∀ ext, p.config.defaultExt = some ext →
    StaticPlan.Plain (path ++ str "." ++ ext)

/-- What a run does with the path that it turns to: its files are served as their names say, the
extension that is added included. -/
structure Planner.ByName (p : Planner) (path : Str) (index : Bool) : Prop where
  decided : index = false → DecidedByName path
  typed : ∀ past missing i choice, Turn p past path index missing i choice →
    TypedByName choice.represented
  served : ∀ past missing i choice, Turn p past path index missing i choice →
    ∀ name, Behind (unit '/') choice.represented name → ∀ file,
      p.serve file choice.represented choice.encoding = p.serve file name choice.encoding

section

variable {u : UInt16} {text rest path name : Str}

theorem afterLast_behind {p : UInt16 → Bool} {front : Str} (separator : p u = true)
    (absent : ∀ v ∈ rest, p v = false) : afterLast p (front ++ u :: rest) = some rest := by
  have found : (front ++ u :: rest).any p = true := by
    simp [separator]
  have back : (front ++ u :: rest).reverse.takeWhile (fun v => !p v) = rest.reverse := by
    rw [List.reverse_append, List.reverse_cons, List.append_assoc,
      List.takeWhile_append_of_pos (by simpa using absent)]
    simp [separator]
  rw [afterLast, if_pos found, back, List.reverse_reverse]

theorem afterLast_none {p : UInt16 → Bool} (absent : ∀ v ∈ text, p v = false) :
    afterLast p text = none := by
  rw [afterLast, if_neg]
  simpa using absent

-- The search from the back finds it, and there is one in every text.
theorem behind_iff : Behind u text rest ↔ rest = (afterLast (· == u) text).getD text := by
  have other {v : UInt16} {part : Str} (absent : u ∉ part) (member : v ∈ part) : (v == u) = false :=
    beq_eq_false_iff_ne.mpr fun same => absent (same ▸ member)
  have found {part : Str} (behind : Behind u text part) :
      part = (afterLast (· == u) text).getD text := by
    obtain ⟨absent, rfl | ⟨front, rfl⟩⟩ := behind
    · rw [afterLast_none fun v => other absent, Option.getD_none]
    · rw [afterLast_behind (p := (· == u)) (beq_self_eq_true u) fun v => other absent,
        Option.getD_some]
  have some : ∃ part, Behind u text part := by
    by_cases member : u ∈ text
    · obtain ⟨part, front, same, absent⟩ := List.eq_append_cons_of_mem (List.mem_reverse.mpr member)
      refine ⟨part.reverse, by simpa using absent, .inr ⟨front.reverse, ?_⟩⟩
      rw [← List.reverse_reverse text, same]
      simp
    · exact ⟨text, member, .inl rfl⟩
  refine ⟨found, fun same => ?_⟩
  obtain ⟨part, behind⟩ := some
  rwa [same, ← found behind]

def unmarked (u : UInt16) : Bool := u != unit '#' && u != unit '?'

theorem clean_iff : Clean path ↔ path.takeWhile unmarked = path := by
  rw [List.takeWhile_eq_self_iff]
  constructor
  · intro clean u member
    have noHash : u ≠ unit '#' := fun same => clean.2 (same ▸ member)
    have noQuery : u ≠ unit '?' := fun same => clean.1 (same ▸ member)
    simp [unmarked, noHash, noQuery]
  · intro all
    exact ⟨fun member => absurd (all _ member) (by decide),
      fun member => absurd (all _ member) (by decide)⟩

-- Both splits of the source stop at the first of the two marks.
theorem fileName_eq (path : Str) : fileName path =
    (afterLast isSlash (path.takeWhile unmarked)).getD (path.takeWhile unmarked) := by
  have marks : (fun u => decide ((u != unit '#') = true ∧ (u != unit '?') = true)) = unmarked := by
    funext u
    rw [Bool.eq_iff_iff, decide_eq_true_iff, unmarked, Bool.and_eq_true]
  rw [fileName, split_head, split_head, List.takeWhile_takeWhile, marks]

theorem fileName_plain (plain : Plain path) (last : Behind (unit '/') path name) :
    fileName path = name := by
  have absent : ∀ v ∈ name, isSlash v = false := by
    intro v member
    have noSlash : v ≠ unit '/' := fun same => last.1 (same ▸ member)
    have noBackslash : v ≠ unit '\\' := fun same => plain.2 name last (same ▸ member)
    simp [isSlash, noSlash, noBackslash]
  rw [fileName_eq, clean_iff.mp plain.1]
  obtain rfl | ⟨front, rfl⟩ := last.2
  · rw [afterLast_none absent, Option.getD_none]
  · rw [afterLast_behind (by decide) absent, Option.getD_some]

-- Behind a mark in the directory, nothing of the name is seen.
theorem fileName_marked {dir : Str} (marked : ¬Clean dir) (rest : Str) :
    fileName (dir ++ rest) = fileName dir := by
  have cut : (dir ++ rest).takeWhile unmarked = dir.takeWhile unmarked := by
    rw [List.takeWhile_append, if_neg]
    exact fun whole => marked (clean_iff.mpr ((List.takeWhile_prefix _).eq_of_length whole))
  rw [fileName_eq, cut, ← fileName_eq]

theorem extractExtension_plain {ext : Str} (plain : Plain path) (last : Behind (unit '/') path name)
    (dot : Behind (unit '.') name ext) : extractExtension path = toLower ext := by
  rw [extractExtension, fileName_plain plain last, ← behind_iff.mp dot]

theorem Plain.typed (plain : Plain path) : TypedByName path := by
  intro name ext last dot mime otherwise
  rw [MimeRegistry.lookup, extractExtension_plain plain last dot]

theorem Plain.decided (plain : Plain path) : DecidedByName path := by
  intro name last
  rw [hasFileExtension, fileName_plain plain last]
  constructor
  · intro has
    cases found : afterLast (· == unit '.') name with
    | none =>
      rw [found] at has
      cases has
    | some ext =>
      rw [found] at has
      have dot : Behind (unit '.') name ext := behind_iff.mpr (by rw [found, Option.getD_some])
      have long : ext.length + 1 < name.length := of_decide_eq_true has
      obtain rfl | ⟨stem, rfl⟩ := dot.2
      · omega
      · refine ⟨stem, ext, ?_, dot.1, rfl⟩
        rintro rfl
        simp at long
  · rintro ⟨stem, ext, some, absent, rfl⟩
    have other : ∀ v ∈ ext, (v == unit '.') = false := by
      intro v member
      exact beq_eq_false_iff_ne.mpr fun same => absent (same ▸ member)
    rw [afterLast_behind (p := (· == unit '.')) (by decide) other]
    have long : 0 < stem.length := List.length_pos_iff.mpr some
    simp
    omega

theorem Plain.component (plain : Plain path) (last : Behind (unit '/') path name) : Plain name := by
  have inside : name ⊆ path := by
    obtain rfl | ⟨front, rfl⟩ := last.2
    · exact List.Subset.refl _
    · exact List.subset_append_of_subset_right _ (List.subset_cons_self _ _)
  refine ⟨⟨fun member => plain.1.1 (inside member), fun member => plain.1.2 (inside member)⟩, ?_⟩
  intro part behind
  obtain rfl : part = name := by
    rcases behind.2 with same | ⟨front, same⟩
    · exact same.symm
    · exact absurd (same ▸ List.mem_append_right _ List.mem_cons_self) last.1
  exact plain.2 part last

-- A path keeps its last component where what is taken off behind it has no slash.
theorem Plain.front {suffix : Str} (plain : Plain (path ++ suffix)) (noSlash : unit '/' ∉ suffix) :
    Plain path := by
  refine ⟨⟨fun member => plain.1.1 (List.mem_append_left _ member),
    fun member => plain.1.2 (List.mem_append_left _ member)⟩, ?_⟩
  intro name last member
  apply plain.2 (name ++ suffix) ?_ (List.mem_append_left _ member)
  refine ⟨fun slash => (List.mem_append.mp slash).elim last.1 noSlash, ?_⟩
  obtain rfl | ⟨front, rfl⟩ := last.2
  · exact .inl rfl
  · exact .inr ⟨front, by simp⟩

theorem plain_iff :
    Plain path ↔ Clean path ∧ unit '\\' ∉ (afterLast (· == unit '/') path).getD path := by
  refine and_congr_right fun _ => ⟨fun no => no _ (behind_iff.mpr rfl), fun no name last => ?_⟩
  rwa [behind_iff.mp last]

instance : Decidable (Clean path) := inferInstanceAs (Decidable (_ ∧ _))

instance : Decidable (Plain path) := decidable_of_iff _ plain_iff.symm

end

section

variable {p : Planner} {path : Str} {index : Bool} {choice : Choice}

-- A type is looked up for the path itself, what is left of it without a forced suffix, or the
-- path with the default extension.
theorem represented_cases (member : choice ∈ p.representations path index) :
    (∃ suffix, unit '/' ∉ suffix ∧ path = choice.represented ++ suffix) ∨
      ∃ ext, index = false ∧ hasFileExtension path = false ∧ p.config.defaultExt = some ext ∧
        choice.represented = path ++ str "." ++ ext := by
  have itself (same : choice.represented = path) :
      ∃ suffix, unit '/' ∉ suffix ∧ path = choice.represented ++ suffix :=
    ⟨[], List.not_mem_nil, by rw [same, List.append_nil]⟩
  simp only [Planner.representations, List.mem_append] at member
  rcases member with (((forced | compressed) | compressed) | plain) | added
  -- A forced suffix is taken off by its length.
  · have cut {suffix : Str} (three : suffix.length = 3) (ends : hasSuffix path suffix = true) :
        path = path.take (path.length - 3) ++ suffix := by
      obtain ⟨front, rfl⟩ := List.isSuffixOf_iff_suffix.mp ends
      simp [three]
    unfold forcedChoices at forced
    split_ifs at forced with enabled brotli gz
    · obtain rfl := List.mem_singleton.mp forced
      exact .inl ⟨str ".br", by decide, cut rfl (Bool.and_eq_true_iff.mp brotli).1⟩
    · obtain rfl := List.mem_singleton.mp forced
      exact .inl ⟨str ".gz", by decide, cut rfl (Bool.and_eq_true_iff.mp gz).1⟩
    · cases forced
    · cases forced
  · split_ifs at compressed
    · obtain rfl := List.mem_singleton.mp compressed
      exact .inl (itself rfl)
    · cases compressed
  · split_ifs at compressed
    · obtain rfl := List.mem_singleton.mp compressed
      exact .inl (itself rfl)
    · cases compressed
  · obtain rfl := List.mem_singleton.mp plain
    exact .inl (itself rfl)
  · unfold defaultChoices at added
    split at added
    case h_1 ext set =>
      split_ifs at added with direct
      · obtain rfl := List.mem_singleton.mp added
        obtain ⟨here, none⟩ := Bool.and_eq_true_iff.mp direct
        exact .inr ⟨ext, by simpa using here, by simpa using none, set, rfl⟩
      · cases added
    case h_2 => cases added

theorem Plain.bare (plain : StaticPlan.Plain path) (none : hasFileExtension path = false) :
    Bare path := by
  intro name last extended
  rw [(plain.decided name last).mpr extended] at none
  cases none

theorem Planner.Plain.represented (plain : p.Plain path index)
    (member : choice ∈ p.representations path index) : StaticPlan.Plain choice.represented := by
  rcases represented_cases member with ⟨suffix, noSlash, same⟩ | ⟨ext, direct, none, set, same⟩
  · exact StaticPlan.Plain.front (same ▸ plain.itself) noSlash
  · rw [same]
    exact plain.extended direct (plain.itself.bare none) ext set

-- A path takes part in what is served by its extension only.
theorem serve_congr {name : Str} (same : extractExtension path = extractExtension name) (file : File)
    (encoding : Option Str) : p.serve file path encoding = p.serve file name encoding := by
  have looked : p.mime.lookup path octetStream = p.mime.lookup name octetStream := by
    rw [MimeRegistry.lookup, MimeRegistry.lookup, same]
  have types (sample : Option Bytes) : resolveContentType path p.mime octetStream sample =
      resolveContentType name p.mime octetStream sample := by
    unfold resolveContentType
    rw [looked]
  have responses (sample : Option Bytes) :
      p.fileResponse file path encoding sample = p.fileResponse file name encoding sample := by
    unfold Planner.fileResponse Planner.fileReply Planner.fileHeaders
    rw [types]
  unfold Planner.serve
  simp only [types, responses]

theorem Planner.Plain.byName (plain : p.Plain path index) : p.ByName path index := by
  refine ⟨fun _ => plain.itself.decided, fun past missing i choice turn =>
    (plain.represented (List.mem_of_getElem? turn.chosen)).typed, ?_⟩
  intro past missing i choice turn name last file
  have whole := plain.represented (List.mem_of_getElem? turn.chosen)
  have dot : Behind (unit '.') name ((afterLast (· == unit '.') name).getD name) :=
    behind_iff.mpr rfl
  apply serve_congr
  rw [extractExtension_plain whole last dot,
    extractExtension_plain (whole.component last) ⟨last.1, .inl rfl⟩ dot]

end

section

variable {dir : Str}

theorem behind_dir {name : Str} (dir : Str) (single : unit '/' ∉ name) :
    Behind (unit '/') (dir ++ unit '/' :: name) name :=
  ⟨single, .inr ⟨dir, rfl⟩⟩

/-- A name a directory can hold and a request can ask for. -/
structure Ordinary (name : Str) : Prop where
  clean : Clean name
  single : unit '/' ∉ name
  noBackslash : unit '\\' ∉ name

theorem Ordinary.plain {name : Str} (held : Ordinary name) (clean : Clean dir) :
    Plain (dir ++ unit '/' :: name) := by
  have slash : unit '/' ≠ unit '?' ∧ unit '/' ≠ unit '#' := by decide
  refine ⟨?_, ?_⟩
  · simp only [Clean, List.mem_append, List.mem_cons, not_or]
    exact ⟨⟨clean.1, slash.1.symm, held.clean.1⟩, ⟨clean.2, slash.2.symm, held.clean.2⟩⟩
  · intro part behind
    have last := behind_iff.mp (behind_dir dir held.single)
    rw [behind_iff.mp behind, ← last]
    exact held.noBackslash

theorem ordinary_page (name : Str) (letters : name.all fun u => u != unit '?' && u != unit '#' &&
    u != unit '/' && u != unit '\\') : Ordinary name := by
  have other (u : UInt16) (member : u ∈ name) := List.all_eq_true.mp letters u member
  exact ⟨⟨fun member => absurd (other _ member) (by decide),
    fun member => absurd (other _ member) (by decide)⟩,
    fun member => absurd (other _ member) (by decide),
    fun member => absurd (other _ member) (by decide)⟩

-- The types of the names of a directory are right exactly where its own path has no mark.
theorem typed_iff : (∀ name, Ordinary name → TypedByName (dir ++ unit '/' :: name)) ↔ Clean dir := by
  refine ⟨fun typed => ?_, fun clean name held => (held.plain clean).typed⟩
  by_contra marked
  have looked (name ext : Str) (held : Ordinary name) (dot : Behind (unit '.') name ext) :=
    typed name held name ext (behind_dir dir held.single) dot .new octetStream
  have sheet := looked (str "a.css") (str "css") (ordinary_page _ (by decide))
    ⟨by decide, .inr ⟨str "a", rfl⟩⟩
  have note := looked (str "a.txt") (str "txt") (ordinary_page _ (by decide))
    ⟨by decide, .inr ⟨str "a", rfl⟩⟩
  -- Both are looked up by a part of the directory.
  have same : extractExtension (dir ++ unit '/' :: str "a.css") =
      extractExtension (dir ++ unit '/' :: str "a.txt") := by
    rw [extractExtension, extractExtension, fileName_marked marked, fileName_marked marked]
  rw [MimeRegistry.lookup, same] at sheet
  rw [MimeRegistry.lookup, sheet] at note
  revert note
  decide +kernel

theorem decided_iff :
    (∀ name, Ordinary name → DecidedByName (dir ++ unit '/' :: name)) ↔ Clean dir := by
  refine ⟨fun decided => ?_, fun clean name held => (held.plain clean).decided⟩
  by_contra marked
  have bare := decided (str "a") (ordinary_page _ (by decide)) _ (behind_dir dir (by decide))
  have dotted := decided (str "a.b") (ordinary_page _ (by decide)) _ (behind_dir dir (by decide))
  have same : hasFileExtension (dir ++ unit '/' :: str "a") =
      hasFileExtension (dir ++ unit '/' :: str "a.b") := by
    rw [hasFileExtension, hasFileExtension, fileName_marked marked, fileName_marked marked]
  have has := dotted.mpr ⟨str "a", str "b", by decide, by decide, rfl⟩
  obtain ⟨stem, ext, -, -, split⟩ := bare.mp (same.trans has)
  have dot : unit '.' ∈ str "a" := split ▸ List.mem_append_right _ List.mem_cons_self
  revert dot
  decide

end

/-- Wherever a run turns to a path without a mark, the type and the default extension follow from
the name; a directory whose path has one spoils both for the names it holds. -/
theorem types_byName (p : Planner) (dir : Str) :
    (∀ past path index missing, Trying p past path index missing → p.Plain path index →
      p.ByName path index) ∧
    ((∀ name, Ordinary name → TypedByName (dir ++ unit '/' :: name)) ↔ Clean dir) ∧
    ((∀ name, Ordinary name → DecidedByName (dir ++ unit '/' :: name)) ↔ Clean dir) :=
  ⟨fun _ _ _ _ _ => Planner.Plain.byName, typed_iff, decided_iff⟩

def sheetPlanner (target : Str) : Planner := ⟨.middlewareDefault (str "/site"), ⟨.get, target, ∅⟩, .new⟩

theorem types_byName_sheet : (sheetPlanner (str "/docs/style.css")).ByName (str "/site/docs/style.css") false ∧
    TypedByName (str "/site/docs/style.css") ∧ DecidedByName (str "/site/docs/style.css") := by
  have trying := Trying.direct (p := sheetPlanner (str "/docs/style.css")) (str "/site/docs/style.css") none
    ⟨rfl, .inl rfl, by decide +kernel, by decide +kernel⟩ id
  have plain : (sheetPlanner (str "/docs/style.css")).Plain (str "/site/docs/style.css") false := by
    refine ⟨by decide +kernel, fun _ bare => ?_⟩
    exact absurd ⟨str "style", str "css", by decide, by decide, rfl⟩
      (bare (str "style.css") (behind_iff.mpr (by decide +kernel)))
  obtain ⟨runs, typed, decided⟩ := types_byName (sheetPlanner (str "/docs/style.css")) (str "/site/docs")
  have clean : Clean (str "/site/docs") := by decide +kernel
  have held : Ordinary (str "style.css") := ordinary_page _ (by decide)
  exact ⟨runs _ _ _ _ trying plain, typed.mpr clean _ held, decided.mpr clean _ held⟩

-- A question mark in the name of a directory is cut off together with the file name: a style sheet
-- goes out as bytes of no known type.
theorem marked_directory : (¬∀ (p : Planner) (past : Past) (path : Str) (index : Bool) (missing : Step),
      Trying p past path index missing → p.ByName path index) ∧
    MimeRegistry.new.lookup (str "/site/a?b/style.css") octetStream = octetStream ∧
    MimeRegistry.new.lookup (str "/site/ab/style.css") octetStream = str "text/css" := by
  refine ⟨fun always => ?_, by decide +kernel, by decide +kernel⟩
  have resolves : (sheetPlanner (str "/a%3Fb/style.css")).Resolves (str "/site/a?b/style.css") :=
    ⟨rfl, .inl rfl, by decide +kernel, by decide +kernel⟩
  have trying := Trying.direct _ none resolves id
  have chosen : ((sheetPlanner (str "/a%3Fb/style.css")).representations
      (str "/site/a?b/style.css") false)[0]? =
      some ⟨str "/site/a?b/style.css", str "/site/a?b/style.css", none⟩ := by decide +kernel
  have turn : Turn _ _ _ _ _ 0 _ := ⟨chosen, _, [], rfl, trying, .start 0⟩
  have typed := (always _ _ _ _ _ trying).typed _ _ _ _ turn (str "style.css") (str "css")
    (behind_iff.mpr (by decide +kernel)) (behind_iff.mpr (by decide +kernel)) .new octetStream
  revert typed
  decide +kernel

end HttpServer.StaticPlan

import HttpServer.Core.Resolution

set_option autoImplicit false

namespace HttpServer.Core

open Unicode Text

theorem contains_iff (s part : Str) : Text.contains s part = true ↔ part <:+: s := by
  rw [Text.contains, List.any_eq_true, List.infix_iff_prefix_suffix]
  simp only [List.mem_tails, List.isPrefixOf_iff_prefix, and_comm]

def forbiddenUnits : List UInt16 := [unit '?', unit '#', unit '\\', 0, unit '\r', unit '\n']

structure MountText (s : Str) : Prop where
  clean : ∀ u ∈ forbiddenUnits, u ∉ s
  noDots : ¬str ".." <:+: s
  noSlashes : ¬str "//" <:+: s

inductive Normal : Str → Prop
  | root : Normal (str "/")
  | mounted (rest : Str) (text : MountText (str "/" ++ rest)) (some : rest ≠ [])
      (noSlash : ¬str "/" <:+ rest) : Normal (str "/" ++ rest)

theorem MountText.inside {s part : Str} (text : MountText s) (inside : part <:+: s) :
    MountText part :=
  ⟨fun u bad member => text.clean u bad (inside.subset member),
    fun dots => text.noDots (dots.trans inside), fun slashes => text.noSlashes (slashes.trans inside)⟩

theorem mountText_iff (value : Str) : MountText value ↔
    ¬(Text.contains value (str "?") || Text.contains value (str "#") ||
      Text.contains value (str "\\") || Text.contains value [0] ||
      Text.contains value (str "\r") || Text.contains value (str "\n")) = true ∧
    ¬(Text.contains value (str "..") || Text.contains value (str "//")) = true := by
  have question : Text.contains value (str "?") = true ↔ unit '?' ∈ value := contains_single
  have hash : Text.contains value (str "#") = true ↔ unit '#' ∈ value := contains_single
  have backslash : Text.contains value (str "\\") = true ↔ unit '\\' ∈ value := contains_single
  have nul : Text.contains value [0] = true ↔ 0 ∈ value := contains_single
  have return' : Text.contains value (str "\r") = true ↔ unit '\r' ∈ value := contains_single
  have feed : Text.contains value (str "\n") = true ↔ unit '\n' ∈ value := contains_single
  simp only [Bool.or_eq_true, question, hash, backslash, nul, return', feed, contains_iff, not_or]
  constructor
  · intro text
    have absent (u : UInt16) (bad : u ∈ forbiddenUnits) : u ∉ value := text.clean u bad
    exact ⟨⟨⟨⟨⟨⟨absent _ (by decide), absent _ (by decide)⟩, absent _ (by decide)⟩,
      absent _ (by decide)⟩, absent _ (by decide)⟩, absent _ (by decide)⟩, text.noDots, text.noSlashes⟩
  · rintro ⟨⟨⟨⟨⟨⟨question, hash⟩, backslash⟩, nul⟩, return'⟩, feed⟩, dots, slashes⟩
    refine ⟨?_, dots, slashes⟩
    rw [forbiddenUnits, List.forall_mem_cons, List.forall_mem_cons, List.forall_mem_cons,
      List.forall_mem_cons, List.forall_mem_cons, List.forall_mem_singleton]
    exact ⟨question, hash, backslash, nul, return', feed⟩

theorem MountText.slash {value : Str} (text : MountText value) (bare : ¬str "/" <+: value) :
    MountText (str "/" ++ value) := by
  have inner {part : Str} (inside : part <:+: str "/" ++ value) (start : ¬part <+: str "/" ++ value) :
      part <:+: value := by
    obtain first | later := List.infix_cons_iff.mp inside
    · exact absurd first start
    · exact later
  refine ⟨fun u bad member => ?_, fun dots => ?_, fun slashes => ?_⟩
  · rcases List.mem_append.mp member with first | later
    · rw [List.mem_singleton.mp first] at bad
      exact absurd bad (by decide)
    · exact text.clean u bad later
  · refine text.noDots (inner dots fun start => ?_)
    have first := (List.cons_prefix_cons.mp start).1
    exact absurd first (by decide)
  · refine text.noSlashes (inner slashes fun start => ?_)
    exact bare (List.cons_prefix_cons.mp start).2

theorem trimmed_normal {rest : Str} (text : MountText (str "/" ++ rest)) (some : rest ≠ []) :
    ∃ kept, Normal (str "/" ++ kept) ∧ kept ≠ [] ∧ (rest = kept ∨ rest = kept ++ str "/") ∧
      (if 1 < (str "/" ++ rest).length && hasSuffix (str "/" ++ rest) (str "/") then
        (str "/" ++ rest).dropLast else str "/" ++ rest) = str "/" ++ kept := by
  obtain ⟨init, last, rfl⟩ := (List.eq_nil_or_concat' rest).resolve_left some
  have long : 1 < (str "/" ++ (init ++ [last])).length := by
    have one : (str "/").length = 1 := rfl
    rw [List.length_append, List.length_append, List.length_singleton, one]
    omega
  have ends : hasSuffix (str "/" ++ (init ++ [last])) (str "/") = true ↔ last = unit '/' := by
    rw [hasSuffix, List.isSuffixOf_iff_suffix, ← List.append_assoc]
    constructor
    · rintro ⟨front, same⟩
      simpa [str, unit, eq_comm] using (List.append_inj' same rfl).2
    · rintro rfl
      exact List.suffix_append _ _
  simp only [Bool.and_eq_true, ends, decide_eq_true_eq]
  split_ifs with trailing
  · obtain ⟨-, rfl⟩ := trailing
    have cut : (str "/" ++ (init ++ [unit '/'])).dropLast = str "/" ++ init := by
      rw [← List.append_assoc, List.dropLast_concat]
    have front : str "/" ++ init <:+: str "/" ++ (init ++ [unit '/']) := by
      rw [← List.append_assoc]
      exact (List.prefix_append _ _).isInfix
    have kept : init ≠ [] := by
      rintro rfl
      exact text.noSlashes (List.infix_refl _)
    refine ⟨init, .mounted init (text.inside front) kept ?_, kept, .inr rfl, cut⟩
    rintro ⟨before, rfl⟩
    apply text.noSlashes
    refine ⟨str "/" ++ before, [], ?_⟩
    simp [str, unit]
  · have other : last ≠ unit '/' := fun same => trailing ⟨long, same⟩
    refine ⟨init ++ [last], .mounted _ text some ?_, some, .inl rfl, rfl⟩
    rintro ⟨before, same⟩
    exact other (by simpa [str, unit, eq_comm] using (List.append_inj' same rfl).2)

theorem Normal.clean {baseUrl : Str} (normal : Normal baseUrl) {u : UInt16} (bad : u ∈ forbiddenUnits) :
    u ∉ baseUrl := by
  cases normal with
  | root =>
    intro member
    rw [List.mem_singleton.mp member] at bad
    exact absurd bad (by decide)
  | mounted rest text => exact text.clean u bad

/-- The spellings of a mount that validation accepts, and what each is normalised to. -/
inductive Spelling : Str → Str → Prop
  | empty : Spelling [] (str "/")
  | full (baseUrl : Str) : Spelling baseUrl baseUrl
  | trailing (rest : Str) (some : rest ≠ []) : Spelling (str "/" ++ rest ++ str "/") (str "/" ++ rest)
  | bare (rest : Str) (some : rest ≠ []) : Spelling rest (str "/" ++ rest)
  | bareTrailing (rest : Str) (some : rest ≠ []) : Spelling (rest ++ str "/") (str "/" ++ rest)

theorem Spelling.below {value baseUrl : Str} (spelling : Spelling value baseUrl)
    (notEmpty : value ≠ []) (other : value ≠ baseUrl) : baseUrl ≠ str "/" := by
  cases spelling with
  | empty => exact absurd rfl notEmpty
  | full => exact absurd rfl other
  | trailing rest more | bare rest more | bareTrailing rest more =>
    exact fun root => more (List.append_right_eq_self.mp root)

theorem normalizeBaseUrl_spelling {value baseUrl : Str}
    (normal : normalizeBaseUrl value = .ok baseUrl) :
    Normal baseUrl ∧ Spelling value baseUrl := by
  simp only [normalizeBaseUrl, StateRun.except_ite_ok, StateRun.except_throw_ok, and_false,
    false_or] at normal
  obtain ⟨whole, same⟩ | ⟨below, clean, dots, same⟩ := normal
  · obtain rfl := Except.ok.inj same
    rcases whole with rfl | rfl
    · exact ⟨.root, .empty⟩
    · exact ⟨.root, .full _⟩
  · have text := (mountText_iff value).mpr ⟨clean, dots⟩
    have same := Except.ok.inj same
    by_cases start : hasPrefix value (str "/") = true
    · obtain ⟨rest, rfl⟩ := List.isPrefixOf_iff_prefix.mp start
      have some : rest ≠ [] := by
        rintro rfl
        exact below (.inr rfl)
      obtain ⟨kept, normal, more, spelt, trimmed⟩ := trimmed_normal text some
      rw [if_pos start, trimmed] at same
      subst same
      rcases spelt with rfl | rfl
      · exact ⟨normal, .full _⟩
      · rw [← List.append_assoc]
        exact ⟨normal, .trailing _ more⟩
    · have bare : ¬str "/" <+: value := mt List.isPrefixOf_iff_prefix.mpr start
      obtain ⟨kept, normal, more, spelt, trimmed⟩ :=
        trimmed_normal (text.slash bare) fun empty => below (.inl empty)
      rw [if_neg start, trimmed] at same
      subst same
      rcases spelt with rfl | rfl
      · exact ⟨normal, .bare _ more⟩
      · exact ⟨normal, .bareTrailing _ more⟩

theorem normalizeBaseUrl_normal {baseUrl : Str} (normal : Normal baseUrl) :
    normalizeBaseUrl baseUrl = .ok baseUrl := by
  cases normal with
  | root => rfl
  | mounted rest text some noSlash =>
    have below : ¬(str "/" ++ rest = [] ∨ str "/" ++ rest = str "/") := by
      rintro (empty | root)
      · cases empty
      · exact some (List.append_right_eq_self.mp root)
    have start : hasPrefix (str "/" ++ rest) (str "/") = true :=
      List.isPrefixOf_iff_prefix.mpr (List.prefix_append _ _)
    obtain ⟨clean, dots⟩ := (mountText_iff _).mp text
    obtain ⟨kept, -, -, spelt, trimmed⟩ := trimmed_normal text some
    have whole : rest = kept := spelt.resolve_right fun same =>
      noSlash (same ▸ List.suffix_append kept (str "/"))
    simp only [normalizeBaseUrl]
    rw [if_neg below, if_neg clean, if_neg dots, if_pos start, trimmed, ← whole]
    rfl

theorem normalizeBaseUrl_idem {value baseUrl : Str}
    (normal : normalizeBaseUrl value = .ok baseUrl) : normalizeBaseUrl baseUrl = .ok baseUrl :=
  normalizeBaseUrl_normal (normalizeBaseUrl_spelling normal).1

theorem validateConfig_baseUrl {c : Config} (valid : validateConfig c = .ok ()) :
    ∃ baseUrl, normalizeBaseUrl c.baseUrl = .ok baseUrl := by
  simp only [validateConfig, StateRun.except_bind_ok] at valid
  obtain ⟨-, -, -, -, baseUrl, normal, -⟩ := valid
  exact ⟨baseUrl, normal⟩

-- One slash in front, and neither a slash nor a backslash behind it.
def SingleSlash (text : Str) : Prop :=
  ∃ rest, text = unit '/' :: rest ∧ rest.head? ≠ some (unit '/') ∧ rest.head? ≠ some (unit '\\')

theorem Normal.singleSlash {baseUrl : Str} (normal : Normal baseUrl) (below : baseUrl ≠ str "/")
    (more : Str) : SingleSlash (baseUrl ++ more) := by
  cases normal with
  | root => exact absurd rfl below
  | mounted rest text some =>
    obtain ⟨u, rest, rfl⟩ := List.exists_cons_of_ne_nil some
    refine ⟨u :: rest ++ more, rfl, fun slash => ?_, fun backslash => ?_⟩
    · obtain rfl := Option.some.inj slash
      exact text.noSlashes (List.prefix_append (str "//") rest).isInfix
    · obtain rfl := Option.some.inj backslash
      exact text.clean (unit '\\') (by decide) (by simp)

theorem Normal.mount_open {baseUrl : Str} (normal : Normal baseUrl) :
    ¬str "/" <:+ mount baseUrl := by
  cases normal with
  | root => decide
  | mounted rest text some noSlash =>
    have below : str "/" ++ rest ≠ str "/" := fun root => some (List.append_right_eq_self.mp root)
    obtain ⟨init, last, rfl⟩ := (List.eq_nil_or_concat' rest).resolve_left some
    rw [mount, if_neg below]
    rintro ⟨before, same⟩
    rw [← List.append_assoc] at same
    obtain ⟨-, same⟩ := List.append_inj' same rfl
    exact noSlash ⟨init, by rw [same]⟩

theorem Normal.bare {rest : Str} (normal : Normal (str "/" ++ rest)) (notEmpty : rest ≠ []) :
    rest.head? ≠ some (unit '/') := by
  have below : str "/" ++ rest ≠ str "/" := fun root =>
    notEmpty (List.append_right_eq_self.mp root)
  obtain ⟨tail, same, noSlash, -⟩ := normal.singleSlash below []
  rw [List.append_nil] at same
  have inner : rest = tail := (List.cons.inj same).2
  rwa [inner]

theorem Allowed.singleSlash {rel : Str} (allowed : Allowed rel) : SingleSlash (unit '/' :: rel) := by
  refine ⟨rel, rfl, fun slash => allowed.relative ?_, fun backslash => ?_⟩
  · obtain ⟨tail, rfl⟩ := List.head?_eq_some_iff.mp slash
    exact List.prefix_append [unit '/'] tail
  · exact allowed.noBackslash (List.mem_of_mem_head? backslash)

theorem Under.singleSlash {baseUrl text rel : Str} (under : Under baseUrl text rel)
    (normal : Normal baseUrl) (allowed : Allowed rel) : text = [] ∨ SingleSlash text := by
  unfold Under mount at under
  split_ifs at under with root
  · rcases under with ⟨rfl, -⟩ | rfl
    · exact .inl rfl
    · exact .inr (allowed.singleSlash)
  · rcases under with ⟨rfl, -⟩ | rfl
    · have alone := normal.singleSlash root []
      rw [List.append_nil] at alone
      exact .inr alone
    · rw [List.append_assoc]
      exact .inr (normal.singleSlash root _)

end HttpServer.Core

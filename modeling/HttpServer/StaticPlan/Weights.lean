import HttpServer.Core.RangeForms
import HttpServer.StaticPlan.Plan
import Mathlib.Data.List.SplitOn

set_option autoImplicit false

namespace HttpServer.StaticPlan

open Unicode Text HttpServer.Core

structure Decimals where
  digits : Str
  short : digits.length ≤ 3
  numeric : ∀ u ∈ digits, 0x30 ≤ u.toNat ∧ u.toNat ≤ 0x39

inductive Weight where
  | below (decimals : Option Decimals)
  | one (zeros : Option (Fin 4))

def Weight.text : Weight → Str
  | .below none => str "0"
  | .below (some d) => str "0." ++ d.digits
  | .one none => str "1"
  | .one (some zeros) => str "1." ++ List.replicate zeros (unit '0')

def Weight.nonzero : Weight → Bool
  | .below none => false
  | .below (some d) => d.digits.any (· != unit '0')
  | .one _ => true

-- Zero with a point and nothing behind it.
def Weight.bare : Weight → Bool
  | .below (some d) => d.digits.isEmpty
  | _ => false

structure Parameter where
  beforeSemicolon : Blank
  afterSemicolon : Blank
  capital : Bool
  weight : Weight

def Parameter.text (p : Parameter) : Str :=
  (if p.capital then str "Q=" else str "q=") ++ p.weight.text

structure Coding where
  before : Blank
  name : Str
  named : name ≠ []
  token : ∀ u ∈ name, isSpace u = false ∧ u ≠ unit ',' ∧ u ≠ unit ';'
  parameter : Option Parameter
  after : Blank

def Coding.core (c : Coding) : Str :=
  match c.parameter with
  | none => c.name
  | some p =>
      c.name ++ p.beforeSemicolon.text ++ unit ';' :: (p.afterSemicolon.text ++ p.text)

def Coding.text (c : Coding) : Str := c.before.text ++ (c.core ++ c.after.text)

/-- A value of the field in which no coding is named twice. -/
structure AcceptEncoding where
  codings : List Coding
  once : (codings.map fun c => toLower c.name).Nodup

def AcceptEncoding.text (field : AcceptEncoding) : Str :=
  [unit ','].intercalate (field.codings.map Coding.text)

def Coding.Is (c : Coding) (name : Str) : Prop := toLower c.name = name

def Coding.nonzero (c : Coding) : Bool := (c.parameter.map (·.weight.nonzero)).getD true

def Coding.bare (c : Coding) : Bool := (c.parameter.map (·.weight.bare)).getD false

-- The coding itself decides, and the wildcard where it is not listed.
def AcceptEncoding.Wants (field : AcceptEncoding) (name : Str) : Prop :=
  (∃ c ∈ field.codings, c.Is name ∧ c.nonzero = true) ∨
    (∀ c ∈ field.codings, ¬c.Is name) ∧ ∃ c ∈ field.codings, c.Is (str "*") ∧ c.nonzero = true

def FollowsWeights (field : AcceptEncoding) : Prop :=
  (accepts field.text br = true ↔ field.Wants br) ∧
    ∀ order : AcceptEncoding, order.codings.Perm field.codings →
      accepts order.text br = accepts field.text br

-- A zero that is spelled as one of the texts compared with.
def Coding.Refused (c : Coding) : Prop := c.nonzero = false ∧ c.bare = false

/-- Beside `br` wanted stands no wildcard refused, and the zero that decides is not bare, unless
a wildcard is refused anyway. -/
structure AcceptEncoding.Plain (field : AcceptEncoding) : Prop where
  wildcard : ∀ c ∈ field.codings, ∀ any ∈ field.codings, c.Is br → any.Is (str "*") →
    c.nonzero = true → ¬any.Refused
  spelled : ∀ c ∈ field.codings, c.bare = true →
    c.Is br ∨ c.Is (str "*") ∧ (∀ other ∈ field.codings, ¬other.Is br) →
      ∃ any ∈ field.codings, any.Is (str "*") ∧ any.Refused

def zeros : List Str := [str "q=0", str "q=0.0", str "q=0.00", str "q=0.000"]

theorem zeros_decimals (digits : Str) (short : digits.length ≤ 3) :
    str "q=0." ++ digits ∈ zeros ↔ digits ≠ [] ∧ ∀ u ∈ digits, u = unit '0' := by
  have spelled : zeros =
      str "q=0" :: [1, 2, 3].map fun n => str "q=0." ++ List.replicate n (unit '0') := by decide
  have longer : str "q=0." ++ digits ≠ str "q=0" := by
    intro same
    have even := congrArg List.length same
    have four : (str "q=0.").length = 4 ∧ (str "q=0").length = 3 := by decide
    rw [List.length_append, four.1, four.2] at even
    omega
  rw [spelled, List.mem_cons, or_iff_right longer, List.mem_map]
  constructor
  · rintro ⟨n, member, same⟩
    obtain ⟨length, all⟩ := List.eq_replicate_iff.mp (List.append_cancel_left same).symm
    refine ⟨?_, all⟩
    rintro rfl
    obtain rfl : 0 = n := length
    simp at member
  · rintro ⟨some, all⟩
    have positive := List.length_pos_iff.mpr some
    refine ⟨digits.length, ?_, ?_⟩
    · simp only [List.mem_cons, List.not_mem_nil, or_false]
      omega
    · rw [(List.eq_replicate_iff.mpr ⟨rfl, all⟩ : digits = _), List.length_replicate]

-- The four texts are the zeros that are not bare.
theorem weight_zero (w : Weight) :
    str "q=" ++ w.text ∈ zeros ↔ w.nonzero = false ∧ w.bare = false := by
  cases w with
  | below decimals =>
    cases decimals with
    | none => decide
    | some d =>
      have joined : str "q=" ++ (str "0." ++ d.digits) = str "q=0." ++ d.digits := rfl
      rw [Weight.text, joined, zeros_decimals d.digits d.short, and_comm]
      simp [Weight.nonzero, Weight.bare]
  | one zeros =>
    cases zeros with
    | none => decide
    | some n => revert n; decide

theorem weight_units (w : Weight) : ∀ u ∈ w.text, 0x2E ≤ u.toNat ∧ u.toNat ≤ 0x39 := by
  intro u member
  cases w with
  | below decimals =>
    cases decimals with
    | none =>
      obtain rfl : u = unit '0' := List.mem_singleton.mp member
      decide
    | some d =>
      rcases List.mem_append.mp member with front | digit
      · have both : (str "0.").all (fun u => 0x2E ≤ u.toNat && u.toNat ≤ 0x39) = true := by decide
        simpa using List.all_eq_true.mp both u front
      · have := d.numeric u digit
        omega
  | one zeros =>
    cases zeros with
    | none =>
      obtain rfl : u = unit '1' := List.mem_singleton.mp member
      decide
    | some n =>
      rcases List.mem_append.mp member with front | zero
      · have both : (str "1.").all (fun u => 0x2E ≤ u.toNat && u.toNat ≤ 0x39) = true := by decide
        simpa using List.all_eq_true.mp both u front
      · obtain rfl := List.eq_of_mem_replicate zero
        decide

theorem weight_nonempty (w : Weight) : w.text ≠ [] := by
  cases w with
  | below decimals =>
    cases decimals with
    | none => decide
    | some d => exact List.append_ne_nil_of_left_ne_nil (by decide) _
  | one zeros =>
    cases zeros with
    | none => decide
    | some n => exact List.append_ne_nil_of_left_ne_nil (by decide) _

theorem toLower_low {s : Str} (low : ∀ u ∈ s, u.toNat < 0x41) : toLower s = s := by
  have same : s.map lowerUnit = s.map id :=
    List.map_congr_left fun u member => (lowerUnit_low (low u member)).mpr rfl
  rw [toLower, same, List.map_id]

theorem toLower_append (s t : Str) : toLower (s ++ t) = toLower s ++ toLower t :=
  List.map_append

theorem toLower_cons (u : UInt16) (s : Str) : toLower (u :: s) = lowerUnit u :: toLower s := rfl

theorem blank_low (b : Blank) : ∀ u ∈ b.text, u.toNat < 0x21 := by
  intro u member
  have space := b.blank u member
  simp only [isSpace, Bool.or_eq_true, beq_iff_eq] at space
  rcases space with ((rfl | rfl) | rfl) | rfl <;> decide

theorem toLower_blank (b : Blank) : toLower b.text = b.text :=
  toLower_low fun u member => by
    have := blank_low b u member
    omega

def Parameter.lower (p : Parameter) : Parameter := { p with capital := false }

theorem Parameter.toLower_text (p : Parameter) : toLower p.text = p.lower.text := by
  have digits : toLower p.weight.text = p.weight.text :=
    toLower_low fun u member => by
      have := weight_units p.weight u member
      omega
  have name : toLower (if p.capital then str "Q=" else str "q=") = str "q=" := by
    cases p.capital <;> decide
  rw [Parameter.text, toLower_append, name, digits]
  rfl

def Coding.lower (c : Coding) : Coding where
  before := c.before
  name := toLower c.name
  named := fun empty => c.named (List.map_eq_nil_iff.mp empty)
  token := by
    intro u member
    obtain ⟨v, original, rfl⟩ := List.mem_map.mp member
    obtain ⟨solid, noComma, noSemicolon⟩ := c.token v original
    refine ⟨(isSpace_lowerUnit v).trans solid, ?_, ?_⟩
    · rwa [Ne, lowerUnit_low (by decide)]
    · rwa [Ne, lowerUnit_low (by decide)]
  parameter := c.parameter.map Parameter.lower
  after := c.after

theorem Coding.toLower_text (c : Coding) : toLower c.text = c.lower.text := by
  have core : toLower c.core = c.lower.core := by
    have semicolon : lowerUnit (unit ';') = unit ';' := by decide
    unfold Coding.core
    cases given : c.parameter with
    | none => simp [Coding.lower, given]
    | some p =>
      simp only [Coding.lower, given, Option.map_some, toLower_append, toLower_cons, toLower_blank,
        semicolon, p.toLower_text]
      rfl
  rw [Coding.text, toLower_append, toLower_append, toLower_blank, toLower_blank, core]
  rfl

theorem Parameter.solid (p : Parameter) : Solid p.text := by
  obtain ⟨init, u, last⟩ :=
    (List.eq_nil_or_concat' p.weight.text).resolve_left (weight_nonempty p.weight)
  have digit := (weight_units p.weight u (by simp [last])).1
  have solid : isSpace u = false := by
    rw [Bool.eq_false_iff]
    intro space
    simp only [isSpace, Bool.or_eq_true, beq_iff_eq] at space
    rcases space with ((rfl | rfl) | rfl) | rfl <;> exact absurd digit (by decide)
  constructor
  · cases capital : p.capital with
    | true => exact ⟨unit 'Q', unit '=' :: p.weight.text, by rw [Parameter.text, capital]; rfl, by decide⟩
    | false => exact ⟨unit 'q', unit '=' :: p.weight.text, by rw [Parameter.text, capital]; rfl, by decide⟩
  · exact ⟨_ ++ init, u, by rw [Parameter.text, last, List.append_assoc], solid⟩

theorem Parameter.no_separator (p : Parameter) {v : UInt16} (separator : v = unit ',' ∨ v = unit ';') :
    v ∉ p.text := by
  have low (u : UInt16) (member : u ∈ p.weight.text) : u ≠ v := by
    rintro rfl
    have := weight_units p.weight u member
    rcases separator with rfl | rfl <;> exact absurd this (by decide)
  have name : v ∉ (if p.capital then str "Q=" else str "q=") := by
    cases p.capital <;> rcases separator with rfl | rfl <;> decide
  intro member
  rcases List.mem_append.mp member with front | digit
  · exact name front
  · exact low v digit rfl

theorem Blank.no_separator (b : Blank) {v : UInt16} (separator : v = unit ',' ∨ v = unit ';') :
    v ∉ b.text := by
  intro member
  have := b.blank v member
  rcases separator with rfl | rfl <;> exact absurd this (by decide)

theorem Coding.name_solid (c : Coding) : Solid c.name := by
  obtain ⟨u, rest, first⟩ := List.exists_cons_of_ne_nil c.named
  obtain ⟨init, v, last⟩ := (List.eq_nil_or_concat' c.name).resolve_left c.named
  exact ⟨⟨u, rest, first, (c.token u (by simp [first])).1⟩,
    ⟨init, v, last, (c.token v (by simp [last])).1⟩⟩

theorem Coding.core_solid (c : Coding) : Solid c.core := by
  unfold Coding.core
  cases c.parameter with
  | none => exact c.name_solid
  | some p =>
    have whole := c.name_solid.append p.solid
      (p.beforeSemicolon.text ++ unit ';' :: p.afterSemicolon.text)
    simpa only [List.append_assoc, List.cons_append] using whole

theorem Coding.no_comma (c : Coding) : unit ',' ∉ c.text := by
  have name : unit ',' ∉ c.name := fun member => (c.token _ member).2.1 rfl
  have core : unit ',' ∉ c.core := by
    unfold Coding.core
    cases c.parameter with
    | none => exact name
    | some p =>
      have other : unit ',' ≠ unit ';' := by decide
      simp only [List.mem_append, List.mem_cons, name, other, Blank.no_separator _ (.inl rfl),
        p.no_separator (.inl rfl), or_self, not_false_eq_true]
  simp only [Coding.text, List.mem_append, core, Blank.no_separator _ (.inl rfl), or_self,
    not_false_eq_true]

def partName (part : Str) : Str := trim ((split (trim part) (unit ';')).headD [])

def partZero (part : Str) : Bool := (split (trim part) (unit ';')).tail.any zeroWeight

theorem Coding.trim_text (c : Coding) : trim c.text = c.core :=
  trim_blanks c.before c.after c.core_solid

def Coding.pieces (c : Coding) : List Str :=
  match c.parameter with
  | none => [c.name]
  | some p => [c.name ++ p.beforeSemicolon.text, p.afterSemicolon.text ++ p.text]

theorem Coding.split_core (c : Coding) : split c.core (unit ';') = c.pieces := by
  have name : unit ';' ∉ c.name := fun member => (c.token _ member).2.2 rfl
  unfold Coding.core Coding.pieces split
  cases c.parameter with
  | none =>
    have clean : ∀ piece ∈ [c.name], unit ';' ∉ piece := by simpa using name
    have cut := List.splitOn_intercalate (unit ';') clean (by simp)
    simpa using cut
  | some p =>
    have front : unit ';' ∉ c.name ++ p.beforeSemicolon.text := by
      simp only [List.mem_append, name, Blank.no_separator _ (.inr rfl), or_self,
        not_false_eq_true]
    have back : unit ';' ∉ p.afterSemicolon.text ++ p.text := by
      simp only [List.mem_append, p.no_separator (.inr rfl), Blank.no_separator _ (.inr rfl),
        or_self, not_false_eq_true]
    have clean : ∀ piece ∈ [c.name ++ p.beforeSemicolon.text, p.afterSemicolon.text ++ p.text],
        unit ';' ∉ piece := by
      intro piece member
      simp only [List.mem_cons, List.not_mem_nil, or_false] at member
      rcases member with rfl | rfl
      · exact front
      · exact back
    have cut := List.splitOn_intercalate (unit ';') clean (by simp)
    simpa using cut

theorem Coding.partName_lower (c : Coding) : partName c.lower.text = toLower c.name := by
  rw [partName, Coding.trim_text, Coding.split_core, Coding.pieces]
  cases c.lower.parameter with
  | none =>
    have trimmed := trim_after noBlank c.lower.name_solid
    rwa [noBlank, List.append_nil] at trimmed
  | some p => exact trim_after p.beforeSemicolon c.lower.name_solid

theorem Coding.partZero_lower (c : Coding) : partZero c.lower.text = true ↔ c.Refused := by
  rw [partZero, Coding.trim_text, Coding.split_core, Coding.pieces]
  cases given : c.parameter with
  | none => simp [Coding.lower, given, Coding.Refused, Coding.nonzero]
  | some p =>
    have trimmed : trim (p.lower.afterSemicolon.text ++ p.lower.text) =
        str "q=" ++ p.weight.text :=
      trim_before p.afterSemicolon p.lower.solid
    have zero : zeroWeight (p.lower.afterSemicolon.text ++ p.lower.text) = true ↔
        p.weight.nonzero = false ∧ p.weight.bare = false := by
      rw [← weight_zero p.weight, zeroWeight, trimmed]
      exact List.contains_iff_mem
    simpa [Coding.lower, given, Coding.Refused, Coding.nonzero, Coding.bare] using zero

def Covers (encoding name : Str) : Prop := name = encoding ∨ name = str "*"

-- One refusal is enough, and without one an acceptance.
theorem acceptsLoop_iff (encoding : Str) (other : encoding ≠ gzip) (parts : List Str)
    (accepted : Bool) :
    acceptsLoop encoding parts accepted = true ↔
      (∀ part ∈ parts, Covers encoding (partName part) → partZero part = false) ∧
        (accepted = true ∨ ∃ part ∈ parts, Covers encoding (partName part)) := by
  have plain : (encoding == str "gzip") = false := by simpa [gzip] using other
  induction parts generalizing accepted with
  | nil => simp [acceptsLoop]
  | cons part rest ih =>
    have covers : (partName part == encoding || partName part == str "*") = true ↔
        Covers encoding (partName part) := by
      simp [Covers]
    rw [acceptsLoop]
    change (if (partZero part && (partName part == encoding || partName part == str "*")) = true
        then false else if (!partZero part && (partName part == encoding ||
          partName part == str "*" || encoding == str "gzip" &&
            (partName part == str "compress" || partName part == str "deflate"))) = true
        then _ else _) = true ↔ _
    rw [plain, Bool.false_and, Bool.or_false]
    by_cases covered : Covers encoding (partName part)
    · have holds := covers.mpr covered
      cases zero : partZero part with
      | true => simp [holds, covered, zero]
      | false => simp [holds, covered, zero, ih]
    · have fails : (partName part == encoding || partName part == str "*") = false :=
        Bool.eq_false_iff.mpr fun holds => covered (covers.mp holds)
      simp [fails, covered, ih]

def Coding.Decides (c : Coding) : Prop := c.Is br ∨ c.Is (str "*")

-- The lower case of a list is cut into the lower cases of its codings.
theorem AcceptEncoding.split_text (field : AcceptEncoding) (some : field.codings ≠ []) :
    split (toLower field.text) (unit ',') = field.codings.map fun c => c.lower.text := by
  have comma : lowerUnit (unit ',') = unit ',' := by decide
  have lower (codings : List Coding) : toLower ([unit ','].intercalate (codings.map Coding.text)) =
      [unit ','].intercalate (codings.map fun c => c.lower.text) := by
    induction codings with
    | nil => rfl
    | cons c rest ih =>
      cases rest with
      | nil => simpa using c.toLower_text
      | cons d rest =>
        simp only [List.map_cons, List.intercalate_cons_cons, toLower_append, c.toLower_text,
          toLower_cons, comma] at ih ⊢
        rw [ih]
        rfl
  rw [split, AcceptEncoding.text, lower]
  apply List.splitOn_intercalate
  · intro piece member
    obtain ⟨c, -, rfl⟩ := List.mem_map.mp member
    exact c.lower.no_comma
  · simpa using some

theorem accepts_iff (field : AcceptEncoding) : accepts field.text br = true ↔
    (∀ c ∈ field.codings, c.Decides → ¬c.Refused) ∧ ∃ c ∈ field.codings, c.Decides := by
  have other : br ≠ gzip := by decide
  rw [accepts, acceptsLoop_iff br other]
  by_cases empty : field.codings = []
  · have nothing : split (toLower field.text) (unit ',') = [[]] := by
      rw [AcceptEncoding.text, empty]
      rfl
    have unnamed : ¬Covers br (partName []) := by
      unfold Covers
      decide
    simp [nothing, empty, unnamed]
  · have part (c : Coding) : Covers br (partName c.lower.text) ↔ c.Decides := by
      rw [c.partName_lower]
      rfl
    have zero (c : Coding) : partZero c.lower.text = false ↔ ¬c.Refused := by
      rw [← c.partZero_lower, Bool.not_eq_true]
    simp [field.split_text empty, part, zero]

theorem AcceptEncoding.unique {field : AcceptEncoding} {c d : Coding} {name : Str}
    (left : c ∈ field.codings) (right : d ∈ field.codings) (first : c.Is name) (second : d.Is name) :
    c = d :=
  List.inj_on_of_nodup_map field.once left right (first.trans second.symm)

theorem Coding.not_refused {c : Coding} : ¬c.Refused ↔ c.nonzero = true ∨ c.bare = true := by
  rw [Coding.Refused, Decidable.not_and_iff_or_not, Bool.not_eq_false, Bool.not_eq_false]

theorem Coding.bare_zero {c : Coding} (bare : c.bare = true) : c.nonzero = false := by
  unfold Coding.bare at bare
  unfold Coding.nonzero
  cases given : c.parameter with
  | none => simp [given] at bare
  | some p =>
    have inner (w : Weight) (bare : w.bare = true) : w.nonzero = false := by
      cases w with
      | below decimals =>
        cases decimals with
        | none => rfl
        | some d => simp [Weight.nonzero, List.isEmpty_iff.mp bare]
      | one zeros => cases bare
    simp [given] at bare ⊢
    exact inner p.weight bare

/-- Which lists are read by their weights, and these in any order. -/
theorem weights_followed (field : AcceptEncoding) : FollowsWeights field ↔ field.Plain := by
  have anyOrder : ∀ order : AcceptEncoding, order.codings.Perm field.codings →
      accepts order.text br = accepts field.text br := by
    intro order same
    rw [Bool.eq_iff_iff, accepts_iff, accepts_iff]
    simp only [same.mem_iff]
  rw [FollowsWeights, and_iff_left anyOrder, accepts_iff, AcceptEncoding.Wants]
  constructor
  · intro follows
    constructor
    · intro c member any memberAny isBr isAny wanted refused
      exact (follows.mpr (.inl ⟨c, member, isBr, wanted⟩)).1 any memberAny (.inr isAny) refused
    · intro c member bare deciding
      by_contra unrefused
      have zero := Coding.bare_zero bare
      have accepted : ∀ d ∈ field.codings, d.Decides → ¬d.Refused := by
        rintro d memberD (isBr | isAny) refused
        · rcases deciding with isBr' | ⟨-, absent⟩
          · obtain rfl := AcceptEncoding.unique memberD member isBr isBr'
            exact absurd bare (by simp [refused.2])
          · exact absent d memberD isBr
        · exact unrefused ⟨d, memberD, isAny, refused⟩
      have decides : c.Decides := deciding.imp id And.left
      rcases follows.mp ⟨accepted, c, member, decides⟩ with
        ⟨d, memberD, isBr, wanted⟩ | ⟨absent, d, memberD, isAny, wanted⟩
      · rcases deciding with isBr' | ⟨-, absent⟩
        · obtain rfl := AcceptEncoding.unique memberD member isBr isBr'
          simp [zero] at wanted
        · exact absent d memberD isBr
      · rcases deciding with isBr' | ⟨isAny', -⟩
        · exact absent c member isBr'
        · obtain rfl := AcceptEncoding.unique memberD member isAny isAny'
          simp [zero] at wanted
  · intro plain
    constructor
    · rintro ⟨unrefused, c, member, decides⟩
      -- A bare zero that decides would stand beside a refused wildcard.
      have wanted (d : Coding) (memberD : d ∈ field.codings)
          (deciding : d.Is br ∨ d.Is (str "*") ∧ ∀ other ∈ field.codings, ¬other.Is br) :
          d.nonzero = true := by
        have decidesD : d.Decides := deciding.imp id And.left
        refine (Coding.not_refused.mp (unrefused d memberD decidesD)).resolve_right fun bare => ?_
        obtain ⟨any, memberAny, isAny, refused⟩ := plain.spelled d memberD bare deciding
        exact unrefused any memberAny (.inr isAny) refused
      by_cases listed : ∃ b ∈ field.codings, b.Is br
      · obtain ⟨b, memberB, isBr⟩ := listed
        exact .inl ⟨b, memberB, isBr, wanted b memberB (.inl isBr)⟩
      · have absent : ∀ other ∈ field.codings, ¬other.Is br :=
          fun other memberO isBr => listed ⟨other, memberO, isBr⟩
        have isAny := decides.resolve_left (absent c member)
        exact .inr ⟨absent, c, member, isAny, wanted c member (.inr ⟨isAny, absent⟩)⟩
    · rintro (⟨b, memberB, isBr, wanted⟩ | ⟨absent, any, memberAny, isAny, wanted⟩)
      · refine ⟨?_, b, memberB, .inl isBr⟩
        rintro d memberD (isBr' | isAny)
        · obtain rfl := AcceptEncoding.unique memberD memberB isBr' isBr
          exact Coding.not_refused.mpr (.inl wanted)
        · exact plain.wildcard b memberB d memberD isBr isAny wanted
      · refine ⟨?_, any, memberAny, .inr isAny⟩
        rintro d memberD (isBr | isAny')
        · exact absurd isBr (absent d memberD)
        · obtain rfl := AcceptEncoding.unique memberD memberAny isAny' isAny
          exact Coding.not_refused.mpr (.inl wanted)

def oneSpace : Blank where
  text := str " "
  blank := by
    intro u member
    obtain rfl := List.mem_singleton.mp member
    decide

def listed (before : Blank) (name : Str) (named : name ≠ [])
    (token : name.all (fun u => !isSpace u && u != unit ',' && u != unit ';') = true)
    (parameter : Option Parameter) : Coding where
  before := before
  name := name
  named := named
  token := by
    intro u member
    simpa [and_assoc] using List.all_eq_true.mp token u member
  parameter := parameter
  after := noBlank

-- `br, *;q=0`, brotli and nothing else.
def onlyBrotli : AcceptEncoding where
  codings := [listed noBlank (str "br") (by decide) (by decide) none,
    listed oneSpace (str "*") (by decide) (by decide) (some ⟨noBlank, noBlank, false, .below none⟩)]
  once := by decide

theorem wildcard_overrides : onlyBrotli.text = str "br, *;q=0" ∧
    accepts onlyBrotli.text br = false ∧ onlyBrotli.Wants br ∧ ¬FollowsWeights onlyBrotli := by
  have refused : accepts onlyBrotli.text br = false := by decide +kernel
  have wants : onlyBrotli.Wants br := .inl ⟨_, List.mem_cons_self, by unfold Coding.Is; decide, rfl⟩
  refine ⟨by decide +kernel, refused, wants, fun follows => ?_⟩
  simp [follows.1.mpr wants] at refused

end HttpServer.StaticPlan

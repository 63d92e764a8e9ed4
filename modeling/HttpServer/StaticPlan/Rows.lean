import HttpServer.Library.Dialogue
import HttpServer.StaticPlan.Plan
import Mathlib.Data.List.Nodup
import Mathlib.Order.Lattice
import Mathlib.Data.List.Lex

set_option autoImplicit false

namespace HttpServer.StaticPlan

open Unicode Text HttpServer.Core Dialogue

theorem transCmp_on {α β : Type} {cmp : β → β → Ordering} (trans : Std.TransCmp cmp) (f : α → β) :
    Std.TransCmp fun a b => cmp (f a) (f b) where
  eq_swap := trans.eq_swap
  isLE_trans := trans.isLE_trans

theorem compareLengths : Std.TransCmp fun a b : Str => compare a.length b.length :=
  transCmp_on inferInstance List.length

theorem compareUnits : Std.TransCmp fun a b : Str =>
    compareOfLessAndEq (a.map UInt16.toNat) (b.map UInt16.toNat) := by
  have trans : Std.TransCmp fun a b : List Nat => compareOfLessAndEq a b :=
    Std.TransOrd.compareOfLessAndEq_of_lt_trans_of_lt_iff lt_trans fun x y => by
      rw [not_lt]
      exact lt_iff_le_and_ne
  exact transCmp_on trans (List.map UInt16.toNat)

theorem compareStr_trans : Std.TransCmp compareStr :=
  have := compareLengths
  have := compareUnits
  inferInstanceAs (Std.TransCmp (compareLex (fun a b : Str => compare a.length b.length)
    fun a b => compareOfLessAndEq (a.map UInt16.toNat) (b.map UInt16.toNat)))

theorem compareEntries_trans : Std.TransCmp compareEntries :=
  have := transCmp_on compareStr_trans fun e : ListingEntry => toLower e.name
  have := transCmp_on compareStr_trans ListingEntry.name
  inferInstanceAs (Std.TransCmp (compareLex (fun a b : ListingEntry =>
    compareStr (toLower a.name) (toLower b.name)) fun a b => compareStr a.name b.name))

def Ordered (rows : List ListingEntry) : Prop :=
  rows.Pairwise fun a b => compareEntries a b ≠ .gt

theorem sortEntries_ordered (entries : List ListingEntry) : Ordered (sortEntries entries) := by
  have trans := compareEntries_trans
  have le (a b : ListingEntry) : (compareEntries a b != .gt) = (compareEntries a b).isLE := by
    cases compareEntries a b <;> rfl
  have sorted : (sortEntries entries).Pairwise fun a b => (compareEntries a b != .gt) = true := by
    apply List.pairwise_mergeSort
    · intro a b c ab bc
      rw [le] at ab bc ⊢
      exact trans.isLE_trans ab bc
    · intro a b
      rw [le, le, trans.eq_swap (a := b)]
      cases compareEntries a b <;> rfl
  exact sorted.imp fun less => by simpa using less

def Planner.Visible (p : Planner) (e : ListingEntry) : Prop :=
  p.config.showDotfiles = true ∨ hasPrefix e.name (str ".") = false

/-- The row is rendered, with the kind, size and time of the entry. -/
structure ListingEntry.Shows (row e : ListingEntry) : Prop where
  name : row.name = e.name
  isDir : row.isDir = e.isDir
  size : row.size = e.size
  mtimeSec : row.mtimeSec = e.mtimeSec
  displayed : row.isCompanion = false

/-- The row is rendered with a badge that links to the entry; the parent's row has no badges. -/
structure ListingEntry.Badges (row e : ListingEntry) : Prop where
  displayed : row.isCompanion = false
  child : row.name ≠ str ".."
  badge : row.hasBr = true ∧ e.name = row.name ++ str ".br" ∨
    row.hasGz = true ∧ e.name = row.name ++ str ".gz"

structure LosesNothing (p : Planner) (path : Str) (entries rows dirs files : List ListingEntry) :
    Prop where
  layout : rows = (if path = normRoot p.config.root then [] else [parentEntry]) ++ (dirs ++ files)
  first : ∀ d ∈ dirs, d.isDir = true
  behind : ∀ f ∈ files, f.isDir = false
  dirsOrdered : Ordered dirs
  filesOrdered : Ordered files
  known : ∀ row ∈ dirs ++ files, ∃ e ∈ entries, p.Visible e ∧ row.Shows e
  found : ∀ e ∈ entries, p.Visible e →
    (∃ row, (dirs ++ files).filter (·.name == e.name) = [row] ∧ row.Shows e) ∨
      e.isDir = false ∧ ∃ row ∈ dirs ++ files, row.Badges e

structure Companion (e base : ListingEntry) : Prop where
  file : e.isDir = false
  named : base.name ≠ []
  suffix : e.name = base.name ++ str ".br" ∨ e.name = base.name ++ str ".gz"

/-- The entry is marked neither beforehand nor as a companion. -/
structure Standing (p : Planner) (entries : List ListingEntry) (e : ListingEntry) : Prop where
  unmarked : e.isCompanion = false
  alone : ∀ base ∈ entries, p.Visible base → ¬Companion e base

/-- The row of the base gets, or had beforehand, the badge that links to the entry. -/
structure Linked (e base : ListingEntry) : Prop where
  file : e.isDir = false
  badge : e.name = base.name ++ str ".br" ∧ (base.name ≠ [] ∨ base.hasBr = true) ∨
    e.name = base.name ++ str ".gz" ∧ (base.name ≠ [] ∨ base.hasGz = true)

/-- No base of a companion is a companion too, or the parent by name. -/
structure Unchained (p : Planner) (entries : List ListingEntry) : Prop where
  companions : ∀ e ∈ entries, p.Visible e → ∀ base ∈ entries, p.Visible base → Companion e base →
    base.name ≠ str ".." ∧ Standing p entries base
  marked : ∀ e ∈ entries, p.Visible e → e.isCompanion = true →
    ∃ base ∈ entries, p.Visible base ∧ Linked e base ∧ base.name ≠ str ".." ∧
      Standing p entries base

def suffixOf (brotli : Bool) : Str := if brotli then str ".br" else str ".gz"

theorem suffixes_apart {s t : Str} {a b : Bool} (same : s ++ suffixOf a = t ++ suffixOf b) :
    s = t ∧ a = b := by
  have three (a : Bool) : (suffixOf a).length = 3 := by cases a <;> rfl
  obtain ⟨rfl, suffix⟩ := List.append_inj' same (by rw [three, three])
  refine ⟨rfl, ?_⟩
  revert suffix
  cases a <;> cases b <;> decide

theorem companionOf_iff {e : ListingEntry} {name : Str} {brotli : Bool} :
    companionOf e = some (name, brotli) ↔
      e.isDir = false ∧ name ≠ [] ∧ e.name = name ++ suffixOf brotli := by
  have ends (a : Bool) : hasSuffix e.name (suffixOf a) = true ↔
      ∃ front, e.name = front ++ suffixOf a := by
    rw [hasSuffix, List.isSuffixOf_iff_suffix]
    exact exists_congr fun front => eq_comm
  have three (a : Bool) : (suffixOf a).length = 3 := by cases a <;> rfl
  have cut (front : Str) (a : Bool) (named : e.name = front ++ suffixOf a) :
      e.name.take (e.name.length - 3) = front := by
    rw [named, List.length_append, three, Nat.add_sub_cancel, List.take_left]
  have br := ends true
  have gz := ends false
  unfold companionOf
  constructor
  · intro found
    split_ifs at found with marked
    simp only [Bool.and_eq_true, Bool.not_eq_true', decide_eq_true_eq, Bool.or_eq_true] at marked
    obtain ⟨⟨file, long⟩, suffix⟩ := marked
    obtain ⟨same, kind⟩ := Prod.mk.inj (Option.some.inj found)
    obtain ⟨front, a, named⟩ : ∃ front a, e.name = front ++ suffixOf a := by
      rcases suffix with isBr | isGz
      · exact (br.mp isBr).imp fun front named => ⟨true, named⟩
      · exact (gz.mp isGz).imp fun front named => ⟨false, named⟩
    obtain rfl : front = name := (cut front a named).symm.trans same
    have kinds : a = brotli := by
      rw [← kind, Bool.eq_iff_iff]
      refine ⟨?_, fun isBr => ?_⟩
      · rintro rfl
        exact br.mpr ⟨front, named⟩
      · obtain ⟨other, again⟩ := br.mp isBr
        exact (suffixes_apart (named.symm.trans again)).2
    refine ⟨file, ?_, kinds ▸ named⟩
    rintro rfl
    rw [named, List.nil_append, three] at long
    omega
  · rintro ⟨file, nonempty, named⟩
    have positive := List.length_pos_iff.mpr nonempty
    have long : 3 < e.name.length := by
      rw [named, List.length_append, three]
      omega
    have kind : hasSuffix e.name (str ".br") = brotli := by
      rw [Bool.eq_iff_iff]
      refine ⟨fun isBr => ?_, ?_⟩
      · obtain ⟨other, again⟩ := br.mp isBr
        exact (suffixes_apart (named.symm.trans again)).2
      · rintro rfl
        exact br.mpr ⟨name, named⟩
    have either : (hasSuffix e.name (str ".br") || hasSuffix e.name (str ".gz")) = true := by
      cases brotli with
      | true => rw [kind, Bool.true_or]
      | false => rw [kind, Bool.false_or]; exact gz.mpr ⟨name, named⟩
    rw [if_pos (by simp [file, long, either]), kind, cut name brotli named]

theorem companion_iff {e base : ListingEntry} : Companion e base ↔
    ∃ brotli, companionOf e = some (base.name, brotli) := by
  simp only [companionOf_iff]
  constructor
  · rintro ⟨file, named, br | gz⟩
    · exact ⟨true, file, named, br⟩
    · exact ⟨false, file, named, gz⟩
  · rintro ⟨brotli, file, named, suffix⟩
    cases brotli with
    | true => exact ⟨file, named, .inl suffix⟩
    | false => exact ⟨file, named, .inr suffix⟩

def markedBy (visible : List ListingEntry) (e : ListingEntry) : ListingEntry :=
  { e with
    isCompanion := e.isCompanion || (companionOf e).any fun base => visible.any (·.name == base.1)
    hasBr := e.hasBr || (visible.filterMap companionOf).contains (e.name, true)
    hasGz := e.hasGz || (visible.filterMap companionOf).contains (e.name, false) }

-- No entry is the last of several of its name.
theorem markEntries_eq {visible : List ListingEntry}
    (distinct : (visible.map ListingEntry.name).Nodup) :
    markEntries visible = visible.map (markedBy visible) := by
  have suffixes (rest : List ListingEntry) (distinct : (rest.map ListingEntry.name).Nodup) :
      markEntries.mark (fun name => visible.any (·.name == name)) (visible.filterMap companionOf)
        rest = rest.map (markedBy visible) := by
    induction rest with
    | nil => rfl
    | cons e rest ih =>
      obtain ⟨fresh, later⟩ := List.nodup_cons.mp distinct
      have last : rest.any (·.name == e.name) = false := by
        rw [List.any_eq_false]
        intro other member same
        exact fresh (List.mem_map.mpr ⟨other, member, by simpa using same⟩)
      rw [markEntries.mark, ih later, last, List.map_cons]
      rfl
  exact suffixes visible distinct

theorem markedBy_isCompanion {visible : List ListingEntry} {e : ListingEntry} :
    (markedBy visible e).isCompanion = true ↔
      e.isCompanion = true ∨ ∃ base ∈ visible, Companion e base := by
  simp only [markedBy, Bool.or_eq_true, Option.any_eq_true, Prod.exists, List.any_eq_true,
    beq_iff_eq]
  refine or_congr_right ⟨?_, ?_⟩
  · rintro ⟨name, brotli, found, base, member, rfl⟩
    exact ⟨base, member, companion_iff.mpr ⟨brotli, found⟩⟩
  · rintro ⟨base, member, companion⟩
    obtain ⟨brotli, found⟩ := companion_iff.mp companion
    exact ⟨base.name, brotli, found, base, member, rfl⟩

theorem contains_companions {visible : List ListingEntry} {name : Str} {brotli : Bool} :
    (visible.filterMap companionOf).contains (name, brotli) = true ↔
      ∃ e ∈ visible, e.isDir = false ∧ name ≠ [] ∧ e.name = name ++ suffixOf brotli := by
  rw [List.contains_iff_mem, List.mem_filterMap]
  simp only [companionOf_iff]

-- A visible file is linked from the entries that it gives a badge or that had it before.
theorem markedBy_badge {visible : List ListingEntry} {e base : ListingEntry} (member : e ∈ visible)
    (file : e.isDir = false) :
    ((markedBy visible base).hasBr = true ∧ e.name = base.name ++ str ".br" ∨
      (markedBy visible base).hasGz = true ∧ e.name = base.name ++ str ".gz") ↔ Linked e base := by
  have gives {brotli : Bool} (suffix : e.name = base.name ++ suffixOf brotli) :
      (visible.filterMap companionOf).contains (base.name, brotli) = true ↔ base.name ≠ [] := by
    rw [contains_companions]
    refine ⟨?_, fun named => ⟨e, member, file, named, suffix⟩⟩
    rintro ⟨-, -, -, named, -⟩
    exact named
  simp only [markedBy, Bool.or_eq_true]
  constructor
  · rintro (⟨badge, suffix⟩ | ⟨badge, suffix⟩)
    · rw [@gives true suffix] at badge
      exact ⟨file, .inl ⟨suffix, badge.symm⟩⟩
    · rw [@gives false suffix] at badge
      exact ⟨file, .inr ⟨suffix, badge.symm⟩⟩
  · rintro ⟨-, ⟨suffix, badge⟩ | ⟨suffix, badge⟩⟩
    · exact .inl ⟨(badge.imp (@gives true suffix).mpr id).symm, suffix⟩
    · exact .inr ⟨(badge.imp (@gives false suffix).mpr id).symm, suffix⟩

def Planner.visible (p : Planner) (entries : List ListingEntry) : List ListingEntry :=
  entries.filter fun e => p.config.showDotfiles || !hasPrefix e.name (str ".")

def Planner.marked (p : Planner) (entries : List ListingEntry) : List ListingEntry :=
  markEntries (p.visible entries)

def Planner.dirs (p : Planner) (entries : List ListingEntry) : List ListingEntry :=
  sortEntries ((p.marked entries).filter fun e => e.isDir && !e.isCompanion)

def Planner.regular (p : Planner) (entries : List ListingEntry) : List ListingEntry :=
  sortEntries ((p.marked entries).filter fun e => !e.isDir && !e.isCompanion)

theorem Planner.listingEntries_eq (p : Planner) (path : Str) (entries : List ListingEntry) :
    p.listingEntries path entries =
      (if path = normRoot p.config.root then [] else [parentEntry]) ++
        (p.dirs entries ++ p.regular entries) := by
  rw [Planner.listingEntries, ← List.append_assoc, join, if_pos rfl, ite_not]
  rfl

section

variable {p : Planner} {entries : List ListingEntry}

theorem mem_visible {e : ListingEntry} : e ∈ p.visible entries ↔ e ∈ entries ∧ p.Visible e := by
  simp [Planner.visible, Planner.Visible]

theorem marked_eq (distinct : (entries.map ListingEntry.name).Nodup) :
    p.marked entries = (p.visible entries).map (markedBy (p.visible entries)) :=
  markEntries_eq (distinct.sublist (List.filter_sublist.map _))

-- The rows are the marked entries that are no companions, each as often as it is there.
theorem rows_perm (p : Planner) (entries : List ListingEntry) :
    (p.dirs entries ++ p.regular entries).Perm
      ((p.marked entries).filter fun e => !e.isCompanion) := by
  have both := List.filter_append_perm (fun e : ListingEntry => e.isDir)
    ((p.marked entries).filter fun e => !e.isCompanion)
  rw [List.filter_filter, List.filter_filter] at both
  exact ((List.mergeSort_perm _ _).append (List.mergeSort_perm _ _)).trans both

theorem standing_iff {e : ListingEntry} :
    (markedBy (p.visible entries) e).isCompanion = false ↔ Standing p entries e := by
  rw [← Bool.not_eq_true, markedBy_isCompanion, not_or, Bool.not_eq_true]
  constructor
  · rintro ⟨unmarked, alone⟩
    exact ⟨unmarked, fun base member visible companion =>
      alone ⟨base, mem_visible.mpr ⟨member, visible⟩, companion⟩⟩
  · rintro ⟨unmarked, alone⟩
    refine ⟨unmarked, ?_⟩
    rintro ⟨base, member, companion⟩
    exact alone base (mem_visible.mp member).1 (mem_visible.mp member).2 companion

-- The rows are the visible entries that stand, marked.
theorem mem_rows (distinct : (entries.map ListingEntry.name).Nodup) {row : ListingEntry} :
    row ∈ p.dirs entries ++ p.regular entries ↔ ∃ e ∈ entries, p.Visible e ∧
      Standing p entries e ∧ row = markedBy (p.visible entries) e := by
  rw [(rows_perm p entries).mem_iff, marked_eq distinct, List.mem_filter, List.mem_map]
  constructor
  · rintro ⟨⟨e, member, rfl⟩, displayed⟩
    rw [Bool.not_eq_true', standing_iff] at displayed
    exact ⟨e, (mem_visible.mp member).1, (mem_visible.mp member).2, displayed, rfl⟩
  · rintro ⟨e, member, visible, standing, rfl⟩
    refine ⟨⟨e, mem_visible.mpr ⟨member, visible⟩, rfl⟩, ?_⟩
    rw [Bool.not_eq_true', standing_iff]
    exact standing

theorem rows_distinct (distinct : (entries.map ListingEntry.name).Nodup) :
    ((p.dirs entries ++ p.regular entries).map ListingEntry.name).Nodup := by
  have names : (p.marked entries).map ListingEntry.name =
      (p.visible entries).map ListingEntry.name := by
    rw [marked_eq distinct, List.map_map]
    rfl
  rw [((rows_perm p entries).map _).nodup_iff]
  apply List.Nodup.sublist (List.filter_sublist.map _)
  rw [names]
  exact distinct.sublist (List.filter_sublist.map _)

theorem filter_name {rows : List ListingEntry} (distinct : (rows.map ListingEntry.name).Nodup)
    {row : ListingEntry} (member : row ∈ rows) : rows.filter (·.name == row.name) = [row] := by
  induction rows with
  | nil => cases member
  | cons first rest ih =>
    obtain ⟨fresh, later⟩ := List.nodup_cons.mp distinct
    rcases List.mem_cons.mp member with rfl | behind
    · have others : rest.filter (·.name == row.name) = [] := by
        rw [List.filter_eq_nil_iff]
        intro other inside same
        exact fresh (List.mem_map.mpr ⟨other, inside, by simpa using same⟩)
      rw [List.filter_cons_of_pos (by simp), others]
    · have other : first.name ≠ row.name := fun same =>
        fresh (List.mem_map.mpr ⟨row, behind, same.symm⟩)
      rw [List.filter_cons_of_neg (by simpa using other), ih later behind]

theorem only_name (distinct : (entries.map ListingEntry.name).Nodup) {a b : ListingEntry}
    (left : a ∈ entries) (right : b ∈ entries) (same : a.name = b.name) : a = b :=
  List.inj_on_of_nodup_map distinct left right same

-- Whatever is hidden is linked from a row, if nothing is lost.
theorem LosesNothing.linked {path : Str} {dirs files : List ListingEntry}
    (loses : LosesNothing p path entries (p.listingEntries path entries) dirs files)
    (distinct : (entries.map ListingEntry.name).Nodup) {e : ListingEntry} (member : e ∈ entries)
    (visible : p.Visible e) (hidden : ¬Standing p entries e) :
    ∃ base ∈ entries, p.Visible base ∧ Linked e base ∧ base.name ≠ str ".." ∧
      Standing p entries base := by
  have rows : dirs ++ files = p.dirs entries ++ p.regular entries := by
    have layout := loses.layout
    rw [p.listingEntries_eq, List.append_cancel_left_eq] at layout
    exact layout.symm
  rcases loses.found e member visible with ⟨row, only, shows⟩ | ⟨file, row, inside, badges⟩
  · have here : row ∈ dirs ++ files := (List.mem_filter.mp (only ▸ List.mem_singleton_self row)).1
    rw [rows, mem_rows distinct] at here
    obtain ⟨other, among, -, standing, rfl⟩ := here
    obtain rfl := only_name distinct among member shows.name
    exact absurd standing hidden
  · rw [rows, mem_rows distinct] at inside
    obtain ⟨base, among, seen, standing, rfl⟩ := inside
    have link := (markedBy_badge (mem_visible.mpr ⟨member, visible⟩) file).mp badges.badge
    exact ⟨base, among, seen, link, badges.child, standing⟩

theorem Companion.linked {e base : ListingEntry} (companion : Companion e base) : Linked e base :=
  ⟨companion.file, companion.suffix.imp (⟨·, .inl companion.named⟩) (⟨·, .inl companion.named⟩)⟩

theorem Linked.name {e base other : ListingEntry} (link : Linked e base) (again : Linked e other) :
    base.name = other.name := by
  have suffix {b : ListingEntry} (link : Linked e b) : ∃ brotli, e.name = b.name ++ suffixOf brotli := by
    rcases link.badge with ⟨br, -⟩ | ⟨gz, -⟩
    · exact ⟨true, br⟩
    · exact ⟨false, gz⟩
  obtain ⟨a, first⟩ := suffix link
  obtain ⟨b, second⟩ := suffix again
  exact (suffixes_apart (first.symm.trans second)).1

theorem rows_complete (path : Str) (distinct : (entries.map ListingEntry.name).Nodup)
    (unchained : Unchained p entries) :
    LosesNothing p path entries (p.listingEntries path entries) (p.dirs entries)
      (p.regular entries) where
  layout := p.listingEntries_eq path entries
  first := by
    intro d member
    rw [Planner.dirs, sortEntries, List.mem_mergeSort] at member
    have kept := (List.mem_filter.mp member).2
    simp only [Bool.and_eq_true] at kept
    exact kept.1
  behind := by
    intro f member
    rw [Planner.regular, sortEntries, List.mem_mergeSort] at member
    have kept := (List.mem_filter.mp member).2
    simp only [Bool.and_eq_true, Bool.not_eq_true'] at kept
    exact kept.1
  dirsOrdered := sortEntries_ordered _
  filesOrdered := sortEntries_ordered _
  known := by
    intro row member
    obtain ⟨e, among, visible, standing, rfl⟩ := (mem_rows distinct).mp member
    exact ⟨e, among, visible, rfl, rfl, rfl, rfl, standing_iff.mpr standing⟩
  found := by
    intro e member visible
    by_cases standing : Standing p entries e
    · have row := (mem_rows distinct).mpr ⟨e, member, visible, standing, rfl⟩
      exact .inl ⟨markedBy (p.visible entries) e, filter_name (rows_distinct distinct) row,
        rfl, rfl, rfl, rfl, standing_iff.mpr standing⟩
    · have linked : ∃ base ∈ entries, p.Visible base ∧ Linked e base ∧ base.name ≠ str ".." ∧
          Standing p entries base := by
        by_cases marked : e.isCompanion = true
        · exact unchained.marked e member visible marked
        · have companion : ∃ base ∈ entries, p.Visible base ∧ Companion e base := by
            by_contra none
            exact standing ⟨by simpa using marked, fun base among seen companion =>
              none ⟨base, among, seen, companion⟩⟩
          obtain ⟨base, among, seen, companion⟩ := companion
          obtain ⟨child, stands⟩ := unchained.companions e member visible base among seen companion
          exact ⟨base, among, seen, companion.linked, child, stands⟩
      obtain ⟨base, among, seen, link, child, stands⟩ := linked
      have badge := (markedBy_badge (mem_visible.mpr ⟨member, visible⟩) link.file).mpr link
      exact .inr ⟨link.file, _, (mem_rows distinct).mpr ⟨base, among, seen, stands, rfl⟩,
        standing_iff.mpr stands, child, badge⟩

theorem listing_rows {path rawPath : Str} {query : Option Str} {response : Response}
    {stream : ListingStream}
    (run : Run (p.listing path rawPath query) [⟨.lists path, entries⟩] (.done (.responds response)))
    (body : response.body = .listing stream) : stream.entries = p.listingEntries path entries := by
  unfold Planner.listing at run
  by_cases head : p.request.meth = .head
  · rw [if_pos head] at run
    cases run
  · rw [if_neg head] at run
    cases run with
    | answer _ rest =>
      cases rest
      rw [if_neg head] at body
      exact congrArg ListingStream.entries (Body.listing.inj body).symm

/-- Which arrays of entries are listed without loss. -/
theorem listing_complete {path rawPath : Str} {query : Option Str} {response : Response}
    {stream : ListingStream} (distinct : (entries.map ListingEntry.name).Nodup)
    (run : Run (p.listing path rawPath query) [⟨.lists path, entries⟩] (.done (.responds response)))
    (body : response.body = .listing stream) :
    (∃ dirs files, LosesNothing p path entries stream.entries dirs files) ↔
      Unchained p entries := by
  rw [listing_rows run body]
  constructor
  · rintro ⟨dirs, files, loses⟩
    constructor
    · intro e member visible base among seen companion
      have hidden : ¬Standing p entries e := fun standing =>
        standing.alone base among seen companion
      obtain ⟨other, member', seen', link, child, stands⟩ := loses.linked distinct member visible hidden
      obtain rfl := only_name distinct among member' (companion.linked.name link)
      exact ⟨child, stands⟩
    · intro e member visible marked
      have hidden : ¬Standing p entries e := fun standing => by
        simp [standing.unmarked] at marked
      exact loses.linked distinct member visible hidden
  · intro unchained
    exact ⟨_, _, rows_complete path distinct unchained⟩

end

def sitePlanner : Planner := ⟨Config.default (str "/site"), ⟨.get, str "/", ∅⟩, .new⟩

def named (name : String) : ListingEntry := ⟨str name, false, 1, 0, false, false, false⟩

def siteStream (entries : List ListingEntry) : ListingStream :=
  ⟨sitePlanner.listingEntries (str "/site") entries, str "/", none, str "localhost", 0, 0, [], 0⟩

def siteResponse (entries : List ListingEntry) : Response where
  status := 200
  headers := applySecurityHeaders
    (OrderedMap.ofList [(str "Content-Type", str "text/html; charset=UTF-8")])
    sitePlanner.config .get
  body := .listing (siteStream entries)

theorem site_run (entries : List ListingEntry) :
    Run (sitePlanner.listing (str "/site") (str "/") none) [⟨.lists (str "/site"), entries⟩]
      (.done (.responds (siteResponse entries))) := by
  have getting : ¬sitePlanner.request.meth = .head := by decide
  rw [Planner.listing, if_neg getting]
  unfold Step.lists
  apply Run.answer
  exact .here _

theorem listing_complete_pair :
    (∃ dirs files, LosesNothing sitePlanner (str "/site") [named "a", named "a.br"]
      (siteStream [named "a", named "a.br"]).entries dirs files) ↔
      Unchained sitePlanner [named "a", named "a.br"] :=
  listing_complete (by decide) (site_run _) rfl

-- The badge for `a.br.gz` stands on the row of `a.br`, which is not rendered.
theorem chain_loses :
    ([named "a", named "a.br", named "a.br.gz"].map ListingEntry.name).Nodup ∧
    Run (sitePlanner.listing (str "/site") (str "/") none)
      [⟨.lists (str "/site"), [named "a", named "a.br", named "a.br.gz"]⟩]
      (.done (.responds (siteResponse [named "a", named "a.br", named "a.br.gz"]))) ∧
    ¬∃ dirs files, LosesNothing sitePlanner (str "/site")
      [named "a", named "a.br", named "a.br.gz"]
      (siteStream [named "a", named "a.br", named "a.br.gz"]).entries dirs files := by
  have distinct : ([named "a", named "a.br", named "a.br.gz"].map ListingEntry.name).Nodup := by
    decide
  refine ⟨distinct, site_run _, ?_⟩
  rintro ⟨dirs, files, loses⟩
  have visible (name : String) (plain : hasPrefix (str name) (str ".") = false) :
      sitePlanner.Visible (named name) := .inr plain
  have first : Companion (named "a.br") (named "a") := ⟨rfl, by decide, .inl (by decide)⟩
  have second : Companion (named "a.br.gz") (named "a.br") := ⟨rfl, by decide, .inr (by decide)⟩
  have hidden : ¬Standing sitePlanner [named "a", named "a.br", named "a.br.gz"]
      (named "a.br.gz") := fun standing =>
    standing.alone (named "a.br") (by simp) (visible "a.br" (by decide)) second
  obtain ⟨base, member, -, link, -, standing⟩ :=
    loses.linked distinct (by simp) (visible "a.br.gz" (by decide)) hidden
  have same := only_name distinct (by simp) member (second.linked.name link)
  rw [← same] at standing
  exact standing.alone (named "a") (by simp) (visible "a" (by decide)) first

end HttpServer.StaticPlan

import HttpServer.Core.Mounts
import HttpServer.Library.References
import HttpServer.StaticPlan.Placement
import HttpServer.StaticPlan.Redirects

set_option autoImplicit false

namespace HttpServer.StaticPlan

open Unicode Text HttpServer.Core Percent

def isUpperHex (u : UInt16) : Bool :=
  0x30 ≤ u.toNat && u.toNat ≤ 0x39 || 0x41 ≤ u.toNat && u.toNat ≤ 0x46

/-- Unreserved characters and escapes with capital digits. -/
inductive Segment : Str → Prop
  | nil : Segment []
  | unreserved {u : UInt16} {rest : Str} (kept : unreservedByte u.toNat = true)
      (behind : Segment rest) : Segment (u :: rest)
  | escape {a b : UInt16} {rest : Str} (high : isUpperHex a = true) (low : isUpperHex b = true)
      (behind : Segment rest) : Segment (unit '%' :: a :: b :: rest)

theorem hexDigit_upper {n : Nat} (small : n < 16) : isUpperHex (hexDigit n) = true := by
  have table : ∀ n < 16, isUpperHex (hexDigit n) = true := by decide +kernel
  exact table n small

theorem digit?_hexDigit {n : Nat} (small : n < 16) : Numerals.digit? 16 (hexDigit n) = some n := by
  have table : ∀ n < 16, Numerals.digit? 16 (hexDigit n) = some n := by decide +kernel
  exact table n small

theorem encodeByte_escaped {b : UInt8} (reserved : unreservedByte b.toNat = false) :
    encodeByte b = [sign, hexDigit (b.toNat / 16), hexDigit (b.toNat % 16)] := by
  unfold encodeByte
  rw [if_neg (ne_true_of_eq_false reserved)]
  rfl

theorem segment_encodeBytes (bytes : Bytes) : Segment (bytes.flatMap encodeByte) := by
  induction bytes with
  | nil => exact .nil
  | cons b bytes ih =>
    have bound := b.toNat_lt
    rw [List.flatMap_cons]
    cases kept : unreservedByte b.toNat with
    | true =>
      have value : (UInt16.ofNat b.toNat).toNat = b.toNat :=
        UInt16.toNat_ofNat_of_lt (by unfold UInt16.size; omega)
      have single : encodeByte b = [UInt16.ofNat b.toNat] := by
        unfold encodeByte
        rw [if_pos kept]
      rw [single]
      exact .unreserved (by rw [value]; exact kept) ih
    | false =>
      rw [encodeByte_escaped kept]
      exact .escape (hexDigit_upper (by omega)) (hexDigit_upper (by omega)) ih

theorem segment_encodePathSegment (s : Str) : Segment (encodePathSegment s) :=
  segment_encodeBytes (encode s)

theorem escapes_encodeBytes {bytes : Bytes}
    (reserved : ∀ b ∈ bytes, unreservedByte b.toNat = false) :
    Escapes (bytes.flatMap encodeByte) (bytes.map UInt8.toNat) := by
  induction bytes with
  | nil => exact .nil
  | cons b bytes ih =>
    have bound := b.toNat_lt
    have value : b.toNat / 16 * 16 + b.toNat % 16 = b.toNat := by omega
    have high := digit?_hexDigit (show b.toNat / 16 < 16 by omega)
    have low := digit?_hexDigit (show b.toNat % 16 < 16 by omega)
    have escapes := Escapes.cons high low (ih fun other member => reserved other (by simp [member]))
    rw [value] at escapes
    rw [List.flatMap_cons, encodeByte_escaped (reserved b (by simp)), List.map_cons]
    exact escapes

theorem unreservedByte_low {n : Nat} (kept : unreservedByte n = true) : n < 0x80 := by
  simp only [unreservedByte, Bool.or_eq_true, Bool.and_eq_true, decide_eq_true_eq, beq_iff_eq] at kept
  omega

-- A character is kept, or all bytes of its shortest form are escaped.
theorem decodes_point {n : Nat} (scalar : IsScalar n) {rest text : Str}
    (behind : Decodes Shortest rest text) :
    Decodes Shortest ((utf8 n).flatMap encodeByte ++ rest) (utf16 n ++ text) := by
  by_cases kept : unreservedByte n = true
  · have low := unreservedByte_low kept
    have value : (UInt8.ofNat n).toNat = n := toNat_ofNat (by omega)
    have unit16 : (UInt16.ofNat n).toNat = n :=
      UInt16.toNat_ofNat_of_lt (by unfold UInt16.size; omega)
    have bytes : (utf8 n).flatMap encodeByte = [UInt16.ofNat n] := by
      rw [utf8, if_pos low, List.flatMap_singleton, encodeByte, value]
      exact if_pos kept
    have units : utf16 n = [UInt16.ofNat n] := if_pos (by omega)
    rw [bytes, units]
    refine .plain (fun same => ?_) behind
    rw [← unit16, same] at kept
    exact absurd kept (by decide)
  · have reserved : ∀ b ∈ utf8 n, unreservedByte b.toNat = false := by
      intro b member
      rw [Bool.eq_false_iff]
      intro unreserved
      have bound : n < 0x110000 := by
        rcases scalar with small | ⟨-, small⟩ <;> omega
      obtain rfl := (mem_utf8_ascii n b bound (unreservedByte_low unreserved)).mp member
      exact kept unreserved
    exact .escaped (escapes_encodeBytes reserved) ⟨scalar, rfl⟩ behind

theorem decodes_encodePathSegment {s : Str} (wellFormed : WellFormed s) :
    Decodes Shortest (encodePathSegment s) s := by
  have points (points : List Nat) (scalars : ∀ n ∈ points, IsScalar n) :
      Decodes Shortest ((points.flatMap utf8).flatMap encodeByte) (points.flatMap utf16) := by
    induction points with
    | nil => exact .nil
    | cons n points ih =>
      rw [List.flatMap_cons, List.flatMap_append, List.flatMap_cons]
      exact decodes_point (scalars n (by simp)) (ih fun m member => scalars m (by simp [member]))
  have whole := points (codePoints s) wellFormed
  rwa [utf16_codePoints] at whole

theorem decodePercent_encodePathSegment {s : Str} (wellFormed : WellFormed s) :
    decodePercent (encodePathSegment s) = .ok s :=
  (decodePercent_iff _ _).mpr ((decodes_encodePathSegment wellFormed).mono faceValue_of_shortest)

theorem Segment.wellEscaped {s : Str} (segment : Segment s) : WellEscaped s := by
  have isDigit : ∀ n < 0x80, isUpperHex (UInt16.ofNat n) = true →
      (Numerals.digit? 16 (UInt16.ofNat n)).isSome ∧ UInt16.ofNat n ≠ sign := by
    decide +kernel
  have digit {u : UInt16} (upper : isUpperHex u = true) :
      (Numerals.digit? 16 u).isSome ∧ u ≠ sign := by
    have low : u.toNat < 0x80 := by
      simp only [isUpperHex, Bool.or_eq_true, Bool.and_eq_true, decide_eq_true_eq] at upper
      omega
    have known := isDigit u.toNat low
    rw [UInt16.ofNat_toNat] at known
    exact known upper
  induction segment with
  | nil => exact wellEscaped_nil
  | unreserved kept _ ih =>
    refine (wellEscaped_cons _ _).mpr ⟨?_, ih⟩
    rintro rfl
    exact absurd kept (by decide)
  | escape high low _ ih =>
    refine (wellEscaped_cons _ _).mpr ⟨fun _ => ⟨_, _, _, rfl, (digit high).1, (digit low).1⟩, ?_⟩
    refine (wellEscaped_cons _ _).mpr ⟨fun same => absurd same (digit high).2, ?_⟩
    exact (wellEscaped_cons _ _).mpr ⟨fun same => absurd same (digit low).2, ih⟩

theorem dereference_escapeChar {n : Nat} (bound : n < 0x110000) (rest : Str) :
    Tags.dereference (escapeChar n ++ rest) = utf16 n ++ Tags.dereference rest := by
  unfold escapeChar
  split_ifs with amp less greater double single
  · subst amp
    exact Tags.dereference_reference rfl (fun _ => rfl) rest
  · subst less
    exact Tags.dereference_reference rfl (fun _ => rfl) rest
  · subst greater
    exact Tags.dereference_reference rfl (fun _ => rfl) rest
  · subst double
    exact Tags.dereference_reference rfl (fun _ => rfl) rest
  · subst single
    exact Tags.dereference_reference rfl (fun _ => rfl) rest
  · refine Tags.dereference_plain (fun member => amp ?_) rest
    exact mem_utf16_low bound member (by decide)

theorem dereference_escapeHtml (s rest : Str) :
    Tags.dereference (escapeHtml s ++ rest) = s ++ Tags.dereference rest := by
  have points (points : List Nat) (bound : ∀ n ∈ points, n < 0x110000) :
      Tags.dereference (points.flatMap escapeChar ++ rest) =
        points.flatMap utf16 ++ Tags.dereference rest := by
    induction points with
    | nil => rfl
    | cons n points ih =>
      rw [List.flatMap_cons, List.flatMap_cons, List.append_assoc, List.append_assoc,
        dereference_escapeChar (bound n (by simp)), ih fun m member => bound m (by simp [member])]
  have whole := points (codePoints s) (codePoints_bound s)
  rwa [utf16_codePoints] at whole

def asked (query : Option Str) : Str :=
  match query with
  | some q => if 0 < q.length then str "?" ++ q else []
  | none => []

theorem dereference_querySuffix (query : Option Str) :
    Tags.dereference (querySuffix query) = asked query := by
  unfold querySuffix asked
  cases query with
  | none => rfl
  | some q =>
    dsimp only
    split_ifs
    · rw [Tags.dereference_plain (by decide)]
      have whole := dereference_escapeHtml q []
      rw [List.append_nil] at whole
      rw [whole, show Tags.dereference [] = [] from rfl, List.append_nil]
    · rfl

theorem dereference_segment (s rest : Str) :
    Tags.dereference (encodePathSegment s ++ rest) =
      encodePathSegment s ++ Tags.dereference rest :=
  Tags.dereference_plain (fun member => absurd (encodePathSegment_units s _ member) (by decide)) rest

def linked (entry : ListingEntry) : Str :=
  encodePathSegment entry.name ++ if entry.isDir then str "/" else []

theorem dereference_entryHref (entry : ListingEntry) (query : Option Str) :
    Tags.dereference (entryHref entry query) =
      References.dot ++ References.slash ::
        (linked entry ++ if entry.isDir then asked query else []) := by
  unfold entryHref linked
  split_ifs
  · rw [List.append_assoc, List.append_assoc, Tags.dereference_plain (by decide),
      dereference_segment, Tags.dereference_plain (by decide), dereference_querySuffix]
    simp [str, References.dot, References.slash]
  · have whole := dereference_segment entry.name []
    rw [List.append_nil, show Tags.dereference [] = [] from rfl, List.append_nil] at whole
    rw [Tags.dereference_plain (by decide), whole]
    simp [str, References.dot, References.slash]

structure EntryName (s : Str) : Prop where
  wellFormed : WellFormed s
  notEmpty : s ≠ []
  noSlash : unit '/' ∉ s
  noNul : 0 ∉ s
  noBackslash : unit '\\' ∉ s
  noColon : unit ':' ∉ s
  notDot : s ≠ str "."
  notDots : s ≠ str ".."
  notReserved : isWindowsReservedName s = false

section

variable {s : Str}

theorem EntryName.pieces (name : EntryName s) : split s (unit '/') = [s] :=
  List.splitOn_eq_singleton name.noSlash

theorem EntryName.allowed (name : EntryName s) : Allowed s := by
  refine ⟨?_, name.noNul, name.noBackslash, name.noColon, ?_, ?_⟩
  · rintro ⟨rest, rfl⟩
    exact name.noSlash (by simp)
  · rw [name.pieces, List.mem_singleton]
    exact Ne.symm name.notDots
  · intro part member
    rw [name.pieces, List.mem_singleton] at member
    subst member
    rw [← isWindowsReservedName_iff, name.notReserved]
    exact Bool.false_ne_true

-- A name behind a directory is a component of its own.
theorem EntryName.allowed_below (name : EntryName s) {dir : Str} (allowed : Allowed (dir ++ str "/")) :
    Allowed (dir ++ str "/" ++ s) := by
  have alone := name.allowed
  have path : dir ++ str "/" ++ s = dir ++ unit '/' :: s := by simp [str, unit]
  have upper : dir ++ str "/" = dir ++ unit '/' :: [] := by simp [str, unit]
  have pieces : split (dir ++ str "/" ++ s) (unit '/') = split dir (unit '/') ++ [s] := by
    rw [path, ← name.pieces]
    exact List.splitOn_append_cons_self _ _
  have before : split (dir ++ str "/") (unit '/') = split dir (unit '/') ++ [[]] := by
    rw [upper]
    exact List.splitOn_append_cons_self _ _
  have kept {u : UInt16} (front : u ∉ dir ++ str "/") (back : u ∉ s) : u ∉ dir ++ str "/" ++ s := by
    rw [List.mem_append, not_or]
    exact ⟨front, back⟩
  refine ⟨?_, kept allowed.noNul alone.noNul, kept allowed.noBackslash alone.noBackslash,
    kept allowed.noColon alone.noColon, ?_, ?_⟩
  · intro slash
    apply allowed.relative
    cases dir with
    | nil => exact List.prefix_refl _
    | cons u dir => simpa using slash
  · have parents := allowed.noParent
    rw [before, List.mem_append, not_or] at parents
    rw [pieces, List.mem_append, not_or, List.mem_singleton]
    exact ⟨parents.1, Ne.symm name.notDots⟩
  · intro part member
    rw [pieces, List.mem_append] at member
    rcases member with inside | last
    · exact allowed.noDevice part (by rw [before]; exact List.mem_append_left _ inside)
    · rw [List.mem_singleton.mp last]
      exact alone.noDevice s (by rw [name.pieces]; simp)

theorem EntryName.allowed_under (name : EntryName s) {rel : Str}
    (dir : rel = [] ∨ ∃ init, rel = init ++ str "/") (allowed : Allowed rel) : Allowed (rel ++ s) := by
  rcases dir with rfl | ⟨init, rfl⟩
  · exact name.allowed
  · exact name.allowed_below allowed

end

def trimSlash (path : Str) : Str := if hasSuffix path (str "/") then path.dropLast else path

theorem trimSlash_slash (path : Str) : trimSlash (path ++ str "/") = path := by
  rw [trimSlash, if_pos (hasSuffix_append _ _)]
  exact List.dropLast_concat

-- Where the part under the mount is empty or ends in a slash.
theorem located_below {bare rel s : Str} (open_ : hasSuffix bare (str "/") = false)
    (some : s ≠ []) (dir : rel = [] ∨ ∃ front, rel = front ++ str "/") :
    located bare (rel ++ s) = trimSlash (located bare rel) ++ str "/" ++ s := by
  rcases dir with rfl | ⟨front, rfl⟩
  · have bareDir : located bare [] = bare := if_pos rfl
    rw [bareDir, trimSlash, if_neg (ne_true_of_eq_false open_), List.nil_append, located,
      if_neg some]
  · have below : located bare (front ++ str "/") = bare ++ str "/" ++ front ++ str "/" := by
      rw [located, if_neg (by simp [str])]
      simp only [List.append_assoc]
    rw [below, trimSlash_slash, located, if_neg (by simp [str])]
    simp only [List.append_assoc]

theorem located_slash {bare rel : Str} (some : rel ≠ []) :
    located bare (rel ++ str "/") = located bare rel ++ str "/" := by
  rw [located, located, if_neg some, if_neg (by simp [some])]
  simp only [List.append_assoc]

theorem query_wellEscaped {target q : Str} (escaped : WellEscaped target)
    (second : (split target (unit '?'))[1]? = some q) : WellEscaped q := by
  have digit : Numerals.digit? 16 (unit '?') = none := by decide
  by_cases member : unit '?' ∈ target
  · obtain ⟨front, back, rfl, absent⟩ := List.eq_append_cons_of_mem member
    rw [split_target absent, List.getElem?_cons_succ, first_piece, Option.some.injEq] at second
    rw [← second]
    exact wellEscaped_takeWhile (by decide) digit
      ((wellEscaped_append front back (by decide) digit).mp escaped).2
  · have alone : split target (unit '?') = [target] := List.splitOn_eq_singleton member
    rw [alone] at second
    cases second

section

variable {entry : ListingEntry}

def linkedText (entry : ListingEntry) : Str := entry.name ++ if entry.isDir then str "/" else []

theorem linked_decodes (name : EntryName entry.name) :
    Decodes FaceValue (linked entry) (linkedText entry) := by
  have encoded := (decodes_encodePathSegment name.wellFormed).mono faceValue_of_shortest
  refine encoded.append ?_
  split_ifs
  · exact .of_plain (by decide)
  · exact .nil

theorem segment_absent {u : UInt16} (other : isSegmentUnit u = false) (s : Str) :
    u ∉ encodePathSegment s := fun member =>
  absurd (encodePathSegment_units s u member) (ne_true_of_eq_false other)

theorem linked_absent {u : UInt16} (other : isSegmentUnit u = false) (notSlash : u ≠ unit '/') :
    u ∉ linked entry := by
  rw [linked, List.mem_append, not_or]
  refine ⟨segment_absent other _, ?_⟩
  split_ifs
  · exact fun member => notSlash (List.mem_singleton.mp member)
  · simp

theorem encodePathSegment_ne {s dots : Str} (wellFormed : WellFormed s) (plain : sign ∉ dots)
    (other : s ≠ dots) : encodePathSegment s ≠ dots := by
  intro same
  have encoded := (decodes_encodePathSegment wellFormed).mono faceValue_of_shortest
  rw [same] at encoded
  exact other (decodes_unique encoded (.of_plain plain))

theorem linked_dotless (name : EntryName entry.name) :
    References.Dotless ((linked entry).splitOn References.slash) := by
  have whole : (encodePathSegment entry.name).splitOn References.slash =
      [encodePathSegment entry.name] :=
    List.splitOn_eq_singleton (segment_absent (by decide) _)
  have first : encodePathSegment entry.name ≠ References.dot :=
    encodePathSegment_ne name.wellFormed (by decide) name.notDot
  have second : encodePathSegment entry.name ≠ References.dots :=
    encodePathSegment_ne name.wellFormed (by decide) name.notDots
  unfold linked
  split_ifs
  · have cut : (encodePathSegment entry.name ++ str "/").splitOn References.slash =
        [encodePathSegment entry.name] ++ [[]] := by
      rw [← whole]
      exact List.splitOn_append_cons_self _ _
    rw [cut]
    intro segment member
    rcases List.mem_append.mp member with here | last
    · rw [List.mem_singleton.mp here]
      exact ⟨first, second⟩
    · rw [List.mem_singleton.mp last]
      exact ⟨by decide, by decide⟩
  · rw [List.append_nil, whole]
    intro segment member
    rw [List.mem_singleton.mp member]
    exact ⟨first, second⟩

theorem linked_wellEscaped (entry : ListingEntry) {query : Str} (escaped : WellEscaped query)
    (asks : query = [] ∨ ∃ q, query = unit '?' :: q) : WellEscaped (linked entry ++ query) := by
  have segment := (segment_encodePathSegment entry.name).wellEscaped
  have slash : Numerals.digit? 16 (unit '/') = none := by decide
  have question : Numerals.digit? 16 (unit '?') = none := by decide
  have path : WellEscaped (linked entry) := by
    unfold linked
    split_ifs
    · exact (wellEscaped_append _ [] (by decide) slash).mpr ⟨segment, wellEscaped_nil⟩
    · rwa [List.append_nil]
  rcases asks with rfl | ⟨q, rfl⟩
  · rwa [List.append_nil]
  · rw [wellEscaped_append _ _ (by decide) question]
    exact ⟨path, ((wellEscaped_append [] q (by decide) question).mp escaped).2⟩

end

/-- A request that is answered by the listing of `path`, with no dot segments in its target. -/
structure ListingUrl (config : Config) (target path : Str) : Prop where
  normal : ∃ value, normalizeBaseUrl value = .ok config.baseUrl
  openRoot : hasSuffix (normRoot config.root) (str "/") = false
  slash : hasSuffix (pathText target) (str "/") = true
  dotless : References.Dotless (split (pathText target) (unit '/'))
  resolved : resolvePath config.root config.baseUrl target = .ok path

-- The part of the target under the mount is empty or ends in a slash.
theorem ListingUrl.under {config : Config} {target path : Str} (url : ListingUrl config target path) :
    ∃ front text rel, pathText target = front ++ str "/" ∧ Decodes FaceValue front text ∧
      text ++ str "/" = mount config.baseUrl ++ str "/" ++ rel ∧ 0 ∉ text ++ str "/" ∧
      (rel = [] ∨ ∃ init, rel = init ++ str "/") ∧ Allowed rel ∧
      path = located (normRoot config.root) rel := by
  obtain ⟨front, whole⟩ := List.isSuffixOf_iff_suffix.mp url.slash
  obtain ⟨-, text, rel, decodes, noNul, under, allowed, same⟩ :=
    (resolvePath_iff _ _ _ _).mp url.resolved
  rw [← whole] at decodes
  obtain ⟨text, rfl, inner⟩ := decodes.last faceValue_nil (by decide) (by decide)
  obtain ⟨value, checked⟩ := url.normal
  have open_ := (normalizeBaseUrl_spelling checked).1.mount_open
  have joined : text ++ [unit '/'] = mount config.baseUrl ++ str "/" ++ rel :=
    under.resolve_left fun here => open_ ⟨text, here.1⟩
  refine ⟨front, text, rel, whole.symm, inner, joined, noNul, ?_, allowed, same⟩
  rcases List.eq_nil_or_concat' rel with rfl | ⟨init, last, rfl⟩
  · exact .inl rfl
  · rw [← List.append_assoc] at joined
    obtain ⟨-, slash⟩ := List.append_inj' joined rfl
    exact .inr ⟨init, by rw [← slash]; rfl⟩

-- The target of a row's link: the listing's path, the name and at most the listing's query.
theorem row_follows {target front : Str} {entry : ListingEntry} (escaped : WellEscaped target)
    (name : EntryName entry.name) (before : References.Dotless (front.splitOn References.slash)) :
    ∃ query, WellEscaped query ∧ (query = [] ∨ ∃ q, query = unit '?' :: q) ∧
      References.resolve (front ++ str "/")
        (Tags.dereference (entryHref entry (split target (unit '?'))[1]?)) =
          front ++ unit '/' :: (linked entry ++ query) := by
  have question : Numerals.digit? 16 (unit '?') = none := by decide
  have hash : Numerals.digit? 16 (unit '#') = none := by decide
  have tail : ∃ tail, Tags.dereference (entryHref entry (split target (unit '?'))[1]?) =
        References.dot ++ References.slash :: (linked entry ++ tail) ∧ WellEscaped tail ∧
      (tail = [] ∨ ∃ q, tail = unit '?' :: q) := by
    refine ⟨_, dereference_entryHref entry _, ?_⟩
    split_ifs
    · cases second : (split target (unit '?'))[1]? with
      | none => exact ⟨wellEscaped_nil, .inl rfl⟩
      | some q =>
        unfold asked
        dsimp only
        split_ifs
        · have inner := query_wellEscaped escaped second
          exact ⟨(wellEscaped_append [] q (by decide) question).mpr ⟨wellEscaped_nil, inner⟩,
            .inr ⟨q, rfl⟩⟩
        · exact ⟨wellEscaped_nil, .inl rfl⟩
    · exact ⟨wellEscaped_nil, .inl rfl⟩
  obtain ⟨tail, href, tailEscaped, asks⟩ := tail
  refine ⟨tail.takeWhile (· != unit '#'), wellEscaped_takeWhile (by decide) hash tailEscaped, ?_, ?_⟩
  · rcases asks with rfl | ⟨q, rfl⟩
    · exact .inl rfl
    · exact .inr ⟨_, List.takeWhile_cons_of_pos (by decide)⟩
  · rw [href]
    exact References.resolve_here before (linked_dotless name)
      (linked_absent (by decide) (by decide)) (linked_absent (by decide) (by decide)) asks

theorem row_reaches {config : Config} {target path : Str} {entry : ListingEntry}
    (url : ListingUrl config target path) (name : EntryName entry.name) :
    resolvePath config.root config.baseUrl (References.resolve (pathText target)
        (Tags.dereference (entryHref entry (split target (unit '?'))[1]?))) =
      .ok (trimSlash path ++ str "/" ++ entry.name ++ if entry.isDir then str "/" else []) := by
  obtain ⟨front, text, rel, whole, decodes, same, noNul, dir, allowed, rfl⟩ := url.under
  obtain ⟨escaped, -⟩ := (resolvePath_iff _ _ _ _).mp url.resolved
  have dotless := url.dotless
  rw [whole] at dotless ⊢
  have before : References.Dotless (front.splitOn References.slash) := by
    have cut : split (front ++ str "/") (unit '/') = split front (unit '/') ++ [[]] :=
      List.splitOn_append_cons_self _ _
    rw [cut] at dotless
    exact fun segment member => dotless segment (List.mem_append_left _ member)
  have marks : ∀ u ∈ pathText target, (u != unit '?') = true := fun u member =>
    @List.mem_takeWhile_imp _ (fun v => v != unit '?') _ u member
  rw [whole] at marks
  have noMark : unit '?' ∉ front := by
    intro member
    have other := marks _ (List.mem_append_left _ member)
    exact absurd other (by decide)
  have tail : ∃ query, WellEscaped query ∧ (query = [] ∨ ∃ q, query = unit '?' :: q) ∧
      References.resolve (front ++ str "/")
        (Tags.dereference (entryHref entry (split target (unit '?'))[1]?)) =
          front ++ unit '/' :: (linked entry ++ query) :=
    row_follows escaped name before
  obtain ⟨query, queryEscaped, asks, follows⟩ := tail
  have slash : Numerals.digit? 16 (unit '/') = none := by decide
  have frontEscaped : WellEscaped front := by
    have path : WellEscaped (pathText target) :=
      wellEscaped_takeWhile (by decide) (by decide) escaped
    rw [whole] at path
    exact ((wellEscaped_append front [] (by decide) slash).mp path).1
  have noMark' : unit '?' ∉ front ++ unit '/' :: linked entry := by
    rw [List.mem_append, List.mem_cons, not_or, not_or]
    exact ⟨noMark, by decide, linked_absent (by decide) (by decide)⟩
  have path : pathText (front ++ unit '/' :: (linked entry ++ query)) =
      front ++ unit '/' :: linked entry := by
    have joined : front ++ unit '/' :: (linked entry ++ query) =
        front ++ unit '/' :: linked entry ++ query := by simp
    rw [joined]
    rcases asks with rfl | ⟨q, rfl⟩
    · rw [List.append_nil, pathText, List.takeWhile_eq_self_iff]
      intro u member
      rw [bne_iff_ne]
      exact fun same => noMark' (same ▸ member)
    · exact pathText_append noMark'
  rw [follows]
  refine (resolvePath_iff _ _ _ _).mpr ⟨?_, text ++ str "/" ++ linkedText entry,
    rel ++ linkedText entry, ?_, ?_, ?_, ?_, ?_⟩
  · rw [wellEscaped_append _ _ (by decide) slash]
    exact ⟨frontEscaped, linked_wellEscaped entry queryEscaped asks⟩
  · rw [path]
    have inner : Decodes FaceValue (unit '/' :: linked entry) (unit '/' :: linkedText entry) :=
      .plain (by decide) (linked_decodes name)
    rw [List.append_assoc]
    exact decodes.append inner
  · intro member
    rcases List.mem_append.mp member with inside | behind
    · exact noNul inside
    · rcases List.mem_append.mp behind with here | slash
      · exact name.noNul here
      · split_ifs at slash
        · exact absurd slash (by decide)
        · cases slash
  · refine .inr ?_
    rw [same]
    simp only [List.append_assoc]
  · unfold linkedText
    split_ifs
    · rw [← List.append_assoc]
      exact Allowed.slash (name.allowed_under dir allowed) (by simp [name.notEmpty])
    · rw [List.append_nil]
      exact name.allowed_under dir allowed
  · unfold linkedText
    split_ifs
    · rw [← List.append_assoc, located_slash (by simp [name.notEmpty]),
        located_below url.openRoot name.notEmpty dir]
    · rw [List.append_nil, List.append_nil, located_below url.openRoot name.notEmpty dir]

def delimiters : List UInt16 := [unit '/', unit '?', unit '#', 0x22, 0x27, unit ' ']

/-- Encoded names read back, hold no delimiter, and lead to their entries. -/
theorem listing_links {s : Str} (wellFormed : WellFormed s) :
    decodePercent (encodePathSegment s) = .ok s ∧ Segment (encodePathSegment s) ∧
      (∀ u ∈ delimiters, u ∉ encodePathSegment s) ∧
      ∀ config target path entry, ListingUrl config target path → EntryName s → entry.name = s →
        resolvePath config.root config.baseUrl (References.resolve (pathText target)
            (Tags.dereference (entryHref entry (split target (unit '?'))[1]?))) =
          .ok (trimSlash path ++ str "/" ++ s ++ if entry.isDir then str "/" else []) := by
  refine ⟨decodePercent_encodePathSegment wellFormed, segment_encodePathSegment s, ?_, ?_⟩
  · have others : delimiters.all (!isSegmentUnit ·) = true := by decide
    intro u member
    exact segment_absent (by simpa using List.all_eq_true.mp others u member) s
  · rintro config target path entry url name rfl
    exact row_reaches url name

def namedEntry (name : String) (isDir : Bool) : ListingEntry :=
  ⟨str name, isDir, 0, 0, false, false, false⟩

def reached (root baseUrl target : String) (entry : ListingEntry) : Except PathError Str :=
  resolvePath (str root) (str baseUrl) (References.resolve (pathText (str target))
    (Tags.dereference (entryHref entry (split (str target) (unit '?'))[1]?)))

theorem listing_links_docs :
    reached "public" "/" "/docs/?a=1" (namedEntry "b c" false) = .ok (str "public/docs/b c") := by
  have ascii : ((str "b c").all (·.toNat < 0x80)) = true := by decide +kernel
  have name : EntryName (str "b c") :=
    ⟨wellFormed_ascii _ fun u member => by simpa using List.all_eq_true.mp ascii u member,
      by decide, by decide, by decide, by decide, by decide, by decide, by decide,
      by decide +kernel⟩
  have url : ListingUrl (.default (str "public")) (str "/docs/?a=1") (str "public/docs/") :=
    ⟨⟨str "/", rfl⟩, by decide, by decide, by decide, by decide +kernel⟩
  have leads := (listing_links name.wellFormed).2.2.2 _ _ _ (namedEntry "b c" false) url name rfl
  exact leads

-- A directory's link keeps its slash; a root of one slash, a dot segment in the target and a mount
-- that is not normalised lead elsewhere.
theorem links_elsewhere :
    (resolvePath (str "public") (str "/") (str "/docs/") = .ok (str "public/docs/") ∧
      reached "public" "/" "/docs/" (namedEntry "sub" true) ≠ .ok (str "public/docs/sub")) ∧
    (resolvePath (str "/") (str "/") (str "/") = .ok (str "/") ∧
      reached "/" "/" "/" (namedEntry "a" false) ≠ .ok (str "/a")) ∧
    (resolvePath (str "public") (str "/") (str "/./docs/") = .ok (str "public/./docs/") ∧
      reached "public" "/" "/./docs/" (namedEntry "a" false) ≠ .ok (str "public/./docs/a")) ∧
    resolvePath (str "public") (str "/app/") (str "/app/") = .ok (str "public") ∧
      reached "public" "/app/" "/app/" (namedEntry "a" false) ≠ .ok (str "public/a") := by
  decide +kernel

end HttpServer.StaticPlan

import HttpServer.Library.Tags
import HttpServer.StaticPlan.Markup

set_option autoImplicit false

namespace HttpServer.StaticPlan

open Unicode Text HttpServer.Core Tags

def entities : List Str :=
  [str "&#x26;", str "&#x3C;", str "&#x3E;", str "&#x22;", str "&#x27;"]

theorem mem_utf16_low {c : Nat} {u : UInt16} (bound : c < 0x110000) (member : u ∈ utf16 c)
    (low : u.toNat < 0x80) : c = u.toNat := by
  unfold utf16 at member
  split_ifs at member with basic
  · obtain rfl := List.mem_singleton.mp member
    exact (UInt16.toNat_ofNat_of_lt basic).symm
  · have high {n : Nat} (range : 0x80 ≤ n ∧ n < 0x10000) : u ≠ UInt16.ofNat n := by
      rintro rfl
      have value : (UInt16.ofNat n).toNat = n := UInt16.toNat_ofNat_of_lt range.2
      omega
    simp only [List.mem_cons, List.not_mem_nil, or_false] at member
    rcases member with rfl | rfl
    · exact absurd rfl (high (by omega))
    · exact absurd rfl (high (by omega))

-- An entity, or the character itself where it is none of the five.
theorem escapeChar_cases {c : Nat} (bound : c < 0x110000) :
    escapeChar c ∈ entities ∨
      escapeChar c = utf16 c ∧ marks (utf16 c) = [] ∧ ampersand ∉ utf16 c := by
  unfold escapeChar
  split_ifs with amp less greater double single
  · exact .inl (by simp [entities])
  · exact .inl (by simp [entities])
  · exact .inl (by simp [entities])
  · exact .inl (by simp [entities])
  · exact .inl (by simp [entities])
  · have other {u : UInt16} (low : u.toNat < 0x80) (ne : c ≠ u.toNat) : u ∉ utf16 c :=
      fun member => ne (mem_utf16_low bound member low)
    refine .inr ⟨rfl, ?_, other (by decide) amp⟩
    rw [marks_nil_iff]
    intro u member
    simp only [isMark, Bool.or_eq_false_iff, beq_eq_false_iff_ne]
    refine ⟨⟨⟨?_, ?_⟩, ?_⟩, ?_⟩ <;> rintro rfl
    · exact @other opening (by decide) less member
    · exact @other closing (by decide) greater member
    · exact @other quote (by decide) double member
    · exact @other apostrophe (by decide) single member

@[simp] theorem marks_escapeHtml (s : Str) : marks (escapeHtml s) = [] := by
  have clean : entities.all (fun e => marks e == []) = true := by decide
  rw [escapeHtml, marks_flatMap, List.flatMap_eq_nil_iff]
  intro c member
  rcases escapeChar_cases (codePoints_bound s c member) with known | ⟨same, plain, -⟩
  · simpa using List.all_eq_true.mp clean _ known
  · rw [same, plain]

theorem referring_escapeHtml (s : Str) : Referring entities (escapeHtml s) := by
  have once : entities.all (fun e => !e.tail.contains ampersand) = true := by decide
  refine referring_flatMap fun c member => ?_
  rcases escapeChar_cases (codePoints_bound s c member) with known | ⟨same, -, absent⟩
  · exact referring_entity known (by simpa using List.all_eq_true.mp once _ known)
  · rw [same]
    exact referring_of_absent absent

def isSegmentUnit (u : UInt16) : Bool := unreservedByte u.toNat || u == unit '%'

theorem encodePathSegment_units (s : Str) : ∀ u ∈ encodePathSegment s, isSegmentUnit u = true := by
  have table : ∀ n < 256, (encodeByte (UInt8.ofNat n)).all isSegmentUnit = true := by
    decide +kernel
  intro u member
  obtain ⟨b, -, here⟩ := List.mem_flatMap.mp member
  have all := table b.toNat b.toNat_lt
  rw [UInt8.ofNat_toNat] at all
  exact List.all_eq_true.mp all u here

@[simp] theorem marks_encodePathSegment (s : Str) : marks (encodePathSegment s) = [] := by
  rw [marks_nil_iff]
  intro u member
  have segment := encodePathSegment_units s u member
  rw [Bool.eq_false_iff]
  intro mark
  simp only [isMark, Bool.or_eq_true, beq_iff_eq] at mark
  rcases mark with ((rfl | rfl) | rfl) | rfl <;> exact absurd segment (by decide)

theorem referring_encodePathSegment (s : Str) : Referring entities (encodePathSegment s) :=
  referring_of_absent fun member => absurd (encodePathSegment_units s _ member) (by decide)

theorem marks_ofNat (n : Nat) : marks (ofNat n) = [] := by
  rw [marks_nil_iff]
  intro u member
  have digit := Numerals.numeral_range 10 (by omega) (by omega) n u member
  rw [Bool.eq_false_iff]
  intro mark
  simp only [isMark, Bool.or_eq_true, beq_iff_eq] at mark
  rcases mark with ((rfl | rfl) | rfl) | rfl <;> exact absurd digit (by decide)

@[simp] theorem marks_ofInt (n : Int) : marks (ofInt n) = [] := by
  have dash : marks [unit '-'] = [] := by decide
  unfold ofInt
  split_ifs
  · rw [← List.singleton_append, marks_append, dash, marks_ofNat]
    rfl
  · exact marks_ofNat _

@[simp] theorem marks_pad2 (n : Int32) : marks (pad2 n) = [] := by
  have zero : marks (str "0") = [] := by decide
  unfold pad2
  split_ifs <;> simp [zero]

@[simp] theorem marks_formatListingTimestamp (t : Int64) :
    marks (formatListingTimestamp t) = [] := by
  have names : months.all (fun name => marks name == []) = true := by decide
  have month (i : Nat) : marks (months.getD i []) = [] := by
    rw [List.getD_eq_getElem?_getD]
    cases found : months[i]? with
    | none => rfl
    | some name => simpa using List.all_eq_true.mp names name (List.mem_of_getElem? found)
  have dash : marks (str "-") = [] := by decide
  have space : marks (str " ") = [] := by decide
  have colon : marks (str ":") = [] := by decide
  simp only [formatListingTimestamp, marks_append, month, dash, space, colon, marks_pad2,
    marks_ofInt, List.append_nil]

@[simp] theorem marks_formatFileSize (size : Int64) : marks (formatFileSize size) = [] := by
  have units : marks (str "B") = [] ∧ marks (str "k") = [] ∧ marks (str "M") = [] ∧
      marks (str "G") = [] ∧ marks (str ".") = [] := by decide
  unfold formatFileSize
  split_ifs <;> simp [units, format1dec, ofInt64]

def queryPieces (query : Option Str) : List Piece :=
  match query with
  | some q => if 0 < q.length then [.fixed (str "?"), .hole (escapeHtml q)] else []
  | none => []

def badgePieces (has : Bool) (name after : Str) : List Piece :=
  if has then
    [.fixed (str " <span class=\"badge\"><a href=\"./"), .hole (encodePathSegment name),
      .fixed after]
  else []

def rowPieces (entry : ListingEntry) (query : Option Str) : List Piece :=
  if entry.isCompanion then []
  else if entry.name = str ".." then
    [.fixed (str "<tr>" ++ str "<td class=\"last-modified\"></td>" ++
      str "<td class=\"file-size\"></td>" ++ str "<td class=\"display-name\"><a href=\"../")] ++
      queryPieces query ++ [.fixed (str "\">../</a></td>" ++ str "</tr>\n")]
  else
    [.fixed (str "<tr>" ++ str "<td class=\"last-modified\">"),
      .fixed (formatListingTimestamp entry.mtimeSec),
      .fixed (str "</td>" ++ str "<td class=\"file-size\"><code>"),
      .fixed (if entry.isDir then [] else formatFileSize entry.size),
      .fixed (str "</code></td>" ++ str "<td class=\"display-name\"><a href=\"" ++ str "./"),
      .hole (encodePathSegment entry.name)] ++
      (if entry.isDir then .fixed (str "/") :: queryPieces query else []) ++
      [.fixed (str "\">"), .hole (escapeHtml entry.name),
        .fixed (if entry.isDir then str "/" else []), .fixed (str "</a>")] ++
      badgePieces entry.hasBr entry.name (str ".br\">[br]</a></span>") ++
      badgePieces entry.hasGz entry.name (str ".gz\">[gz]</a></span>") ++
      [.fixed (str "</td></tr>\n")]

def pagePieces (title : Str) (entries : List ListingEntry) (query : Option Str) (host : Str) :
    List Piece :=
  [.fixed beforeTitle, .hole (escapeHtml title), .fixed beforeHeading, .hole (escapeHtml title),
    .fixed (str "</h1>\n<table>\n")] ++ entries.flatMap (rowPieces · query) ++
    [.fixed (str "</table>\n<br><address>http-server running @ "), .hole (escapeHtml host),
      .fixed (str "</address>\n</body></html>")]

theorem text_queryPieces (query : Option Str) : text (queryPieces query) = querySuffix query := by
  unfold queryPieces querySuffix
  cases query with
  | none => rfl
  | some q => by_cases some : 0 < q.length <;> simp [some, Piece.text]

theorem text_rowPieces (entry : ListingEntry) (query : Option Str) :
    text (rowPieces entry query) = listingRow entry query := by
  unfold rowPieces listingRow badgePieces entryHref
  split_ifs <;> simp [text_queryPieces, Piece.text]

theorem text_pagePieces (title : Str) (entries : List ListingEntry) (query : Option Str)
    (host : Str) :
    text (pagePieces title entries query host) = renderDirectoryHtml title entries query host := by
  have rows : text (entries.flatMap (rowPieces · query)) =
      entries.flatMap (listingRow · query) := by
    induction entries with
    | nil => rfl
    | cons entry rest ih => rw [List.flatMap_cons, text_append, ih, text_rowPieces]; rfl
  simp [pagePieces, renderDirectoryHtml, listingHeader, listingFooter, rows, Piece.text]

theorem escaped_harmless (s : Str) {place : Place} (stands : place = .content ∨ place = .double) :
    Tags.Harmless entities place (escapeHtml s) :=
  ⟨stands, marks_escapeHtml s, referring_escapeHtml s⟩

theorem segment_harmless (s : Str) : Tags.Harmless entities .double (encodePathSegment s) :=
  ⟨.inr rfl, marks_encodePathSegment s, referring_encodePathSegment s⟩

theorem query_placed (query : Option Str) :
    Placed entities .double (queryPieces query) .double := by
  have mark : marks (str "?") = [] := by decide
  unfold queryPieces
  cases query with
  | none => exact .nil _
  | some q =>
    dsimp only
    split_ifs
    · exact .silent mark (.hole (escaped_harmless q (.inr rfl)) (.nil _))
    · exact .nil _

theorem badge_placed (has : Bool) (name : Str) {after : Str}
    (closes : Place.double.read after = .content) :
    Placed entities .content (badgePieces has name after) .content := by
  unfold badgePieces
  split_ifs
  · have opens : Place.content.read (str " <span class=\"badge\"><a href=\"./") = .double := by
      decide +kernel
    exact .fixed opens (.hole (segment_harmless name) (.fixed closes (.nil _)))
  · exact .nil _

theorem row_placed (entry : ListingEntry) (query : Option Str) :
    Placed entities .content (rowPieces entry query) .content := by
  have slash : marks (str "/") = [] := by decide
  rw [rowPieces]
  by_cases companion : entry.isCompanion = true
  · rw [if_pos companion]
    exact .nil _
  rw [if_neg companion]
  by_cases parent : entry.name = str ".."
  · rw [if_pos parent]
    have front : Place.content.read (str "<tr>" ++ str "<td class=\"last-modified\"></td>" ++
        str "<td class=\"file-size\"></td>" ++ str "<td class=\"display-name\"><a href=\"../") =
        .double := by decide +kernel
    have back : Place.double.read (str "\">../</a></td>" ++ str "</tr>\n") = .content := by
      decide +kernel
    exact .append (.append (.fixed front (.nil _)) (query_placed query)) (.fixed back (.nil _))
  · rw [if_neg parent]
    have open_ : Place.content.read (str "<tr>" ++ str "<td class=\"last-modified\">") =
        .content := by decide +kernel
    have size : Place.content.read (str "</td>" ++ str "<td class=\"file-size\"><code>") =
        .content := by decide +kernel
    have link : Place.content.read (str "</code></td>" ++
        str "<td class=\"display-name\"><a href=\"" ++ str "./") = .double := by decide +kernel
    have shut : Place.double.read (str "\">") = .content := by decide +kernel
    have anchor : Place.content.read (str "</a>") = .content := by decide +kernel
    have last : Place.content.read (str "</td></tr>\n") = .content := by decide +kernel
    have br : Place.double.read (str ".br\">[br]</a></span>") = .content := by decide +kernel
    have gz : Place.double.read (str ".gz\">[gz]</a></span>") = .content := by decide +kernel
    have start : Placed entities .content
        [.fixed (str "<tr>" ++ str "<td class=\"last-modified\">"),
          .fixed (formatListingTimestamp entry.mtimeSec),
          .fixed (str "</td>" ++ str "<td class=\"file-size\"><code>"),
          .fixed (if entry.isDir then [] else formatFileSize entry.size),
          .fixed (str "</code></td>" ++ str "<td class=\"display-name\"><a href=\"" ++ str "./"),
          .hole (encodePathSegment entry.name)] .double := by
      have sizes : marks (if entry.isDir then [] else formatFileSize entry.size) = [] := by
        split_ifs
        · rfl
        · exact marks_formatFileSize entry.size
      exact .fixed open_ (.silent (marks_formatListingTimestamp _) (.fixed size (.silent sizes
        (.fixed link (.hole (segment_harmless entry.name) (.nil _))))))
    have target : Placed entities .double
        (if entry.isDir then .fixed (str "/") :: queryPieces query else []) .double := by
      split_ifs
      · exact .silent slash (query_placed query)
      · exact .nil _
    have shown : Placed entities .double [.fixed (str "\">"), .hole (escapeHtml entry.name),
        .fixed (if entry.isDir then str "/" else []), .fixed (str "</a>")] .content := by
      have dash : marks (if entry.isDir then str "/" else []) = [] := by
        split_ifs
        · exact slash
        · rfl
      exact .fixed shut (.hole (escaped_harmless entry.name (.inl rfl))
        (.silent dash (.fixed anchor (.nil _))))
    exact ((((start.append target).append shown).append (badge_placed _ _ br)).append
      (badge_placed _ _ gz)).append (.fixed last (.nil _))

theorem page_placed (title : Str) (entries : List ListingEntry) (query : Option Str)
    (host : Str) :
    Placed StaticPlan.entities .content (pagePieces title entries query host) .content := by
  have front : Place.content.read beforeTitle = .content := by decide +kernel
  have heading : Place.content.read beforeHeading = .content := by decide +kernel
  have table : Place.content.read (str "</h1>\n<table>\n") = .content := by decide +kernel
  have foot : Place.content.read
      (str "</table>\n<br><address>http-server running @ ") = .content := by decide +kernel
  have last : Place.content.read (str "</address>\n</body></html>") = .content := by
    decide +kernel
  have stands : Place.content = .content ∨ Place.content = .double := .inl rfl
  exact ((Placed.fixed front (.hole (escaped_harmless title stands) (.fixed heading
    (.hole (escaped_harmless title stands) (.fixed table (.nil _)))))).append
      (Placed.flatMap (fun entry => row_placed entry query) entries)).append
        (.fixed foot (.hole (escaped_harmless host stands) (.fixed last (.nil _))))

/-- The entries have the same flags, and both or none is the parent. -/
structure Alike (a b : ListingEntry) : Prop where
  isDir : a.isDir = b.isDir
  isCompanion : a.isCompanion = b.isCompanion
  hasBr : a.hasBr = b.hasBr
  hasGz : a.hasGz = b.hasGz
  parent : a.name = str ".." ↔ b.name = str ".."

def Asked (query : Option Str) : Prop := ∃ q, query = some q ∧ 0 < q.length

theorem marks_querySuffix (query : Option Str) : marks (querySuffix query) = [] := by
  have mark : marks (str "?") = [] := by decide
  unfold querySuffix
  cases query with
  | none => rfl
  | some q => by_cases some : 0 < q.length <;> simp [some, mark]

theorem marks_row {a b : ListingEntry} (alike : Alike a b) (query query' : Option Str) :
    marks (listingRow a query) = marks (listingRow b query') := by
  simp only [listingRow, entryHref, alike.isDir, alike.isCompanion, alike.parent, alike.hasBr,
    alike.hasGz, apply_ite marks, marks_append, marks_nil, marks_querySuffix, marks_escapeHtml,
    marks_encodePathSegment, marks_formatListingTimestamp, marks_formatFileSize]

structure Twins (a b : ListingEntry) : Prop extends Alike a b where
  size : a.size = b.size
  mtimeSec : a.mtimeSec = b.mtimeSec

theorem shape_queryPieces {query query' : Option Str} (asked : Asked query ↔ Asked query') :
    (queryPieces query).map Piece.shape = (queryPieces query').map Piece.shape := by
  have shape (query : Option Str) [Decidable (Asked query)] :
      (queryPieces query).map Piece.shape =
        if Asked query then [.fixed (str "?"), .hole []] else [] := by
    unfold queryPieces
    cases query with
    | none => rw [if_neg (by rintro ⟨q, given, -⟩; cases given)]; rfl
    | some q =>
      by_cases some : 0 < q.length
      · have asked : Asked (Option.some q) := ⟨q, rfl, some⟩
        simp [some, asked, Piece.shape]
      · have unasked : ¬Asked (Option.some q) := by
          rintro ⟨q', given, positive⟩
          obtain rfl := Option.some.inj given
          exact some positive
        simp [some, unasked]
  classical
  rw [shape, shape]
  simp only [asked]

theorem shape_row {a b : ListingEntry} (twins : Twins a b) {query query' : Option Str}
    (asked : Asked query ↔ Asked query') :
    (rowPieces a query).map Piece.shape = (rowPieces b query').map Piece.shape := by
  have queries := shape_queryPieces asked
  have badges (has : Bool) (after : Str) : (badgePieces has a.name after).map Piece.shape =
      (badgePieces has b.name after).map Piece.shape := by
    unfold badgePieces
    split_ifs <;> rfl
  simp only [rowPieces, twins.isDir, twins.isCompanion, twins.parent, twins.hasBr, twins.hasGz,
    twins.size, twins.mtimeSec, apply_ite (List.map Piece.shape), List.map_append, badges,
    queries]
  split_ifs <;> simp [Piece.shape, queries]

theorem marks_page {entries entries' : List ListingEntry}
    (alike : List.Forall₂ Alike entries entries') (title title' : Str)
    (query query' : Option Str) (host host' : Str) :
    marks (renderDirectoryHtml title entries query host) =
      marks (renderDirectoryHtml title' entries' query' host') := by
  have rows : (entries.flatMap fun entry => marks (listingRow entry query)) =
      entries'.flatMap fun entry => marks (listingRow entry query') :=
    flatMap_related alike fun a b same => marks_row same query query'
  simp only [renderDirectoryHtml, listingHeader, listingFooter, marks_append, marks_escapeHtml,
    marks_flatMap, rows]

theorem shape_page {entries entries' : List ListingEntry}
    (twins : List.Forall₂ Twins entries entries') (title title' : Str)
    {query query' : Option Str} (asked : Asked query ↔ Asked query') (host host' : Str) :
    (pagePieces title entries query host).map Piece.shape =
      (pagePieces title' entries' query' host').map Piece.shape := by
  have rows : (entries.flatMap (rowPieces · query)).map Piece.shape =
      (entries'.flatMap (rowPieces · query')).map Piece.shape := by
    rw [List.map_flatMap, List.map_flatMap]
    exact flatMap_related twins fun a b same => shape_row same asked
  simp only [pagePieces, List.map_append, List.map_cons, List.map_nil, Piece.shape, rows]

/-- The page is its pieces, and every hole is harmless in the place where it stands. -/
structure Enclosed (title : Str) (entries : List ListingEntry) (query : Option Str)
    (host : Str) : Prop where
  whole : text (pagePieces title entries query host) = renderDirectoryHtml title entries query host
  harmless : ∀ front filling back,
    pagePieces title entries query host = front ++ .hole filling :: back →
      Tags.Harmless entities (Place.content.read (text front)) filling
  closed : Place.content.read (renderDirectoryHtml title entries query host) = .content

/-- Names, title, query and host change nothing of a page but what stands in its holes. -/
theorem markup_contained {entries entries' : List ListingEntry}
    (alike : List.Forall₂ Alike entries entries') (title title' : Str)
    {query query' : Option Str} (asked : Asked query ↔ Asked query') (host host' : Str) :
    marks (renderDirectoryHtml title entries query host) =
        marks (renderDirectoryHtml title' entries' query' host') ∧
      Enclosed title entries query host ∧ Enclosed title' entries' query' host' ∧
      (List.Forall₂ Twins entries entries' → (pagePieces title entries query host).map Piece.shape =
        (pagePieces title' entries' query' host').map Piece.shape) := by
  have contained (title : Str) (entries : List ListingEntry) (query : Option Str) (host : Str) :
      Enclosed title entries query host := by
    have placed := page_placed title entries query host
    have whole := text_pagePieces title entries query host
    exact ⟨whole, fun _ _ _ cut => placed.harmless cut, whole ▸ placed.leads⟩
  exact ⟨marks_page alike title title' query query' host host', contained title entries query host,
    contained title' entries' query' host',
    fun twins => shape_page twins title title' asked host host'⟩

def plainFile (name : Str) : ListingEntry := ⟨name, false, 0, 0, false, false, false⟩

theorem twoFiles : Alike (plainFile (str "<b>")) (plainFile (str "plain")) :=
  ⟨rfl, rfl, rfl, rfl, by decide⟩

theorem markup_contained_tag :
    marks (renderDirectoryHtml (str "/") [plainFile (str "<b>")] none (str "localhost")) =
      marks (renderDirectoryHtml (str "/\"><script>") [plainFile (str "plain")] none (str "a&b")) ∧
    Enclosed (str "/") [plainFile (str "<b>")] none (str "localhost") ∧
    Enclosed (str "/\"><script>") [plainFile (str "plain")] none (str "a&b") ∧
    (List.Forall₂ Twins [plainFile (str "<b>")] [plainFile (str "plain")] →
      (pagePieces (str "/") [plainFile (str "<b>")] none (str "localhost")).map Piece.shape =
        (pagePieces (str "/\"><script>") [plainFile (str "plain")] none (str "a&b")).map
          Piece.shape) :=
  markup_contained (.cons twoFiles .nil) (str "/") (str "/\"><script>")
    Iff.rfl (str "localhost") (str "a&b")

end HttpServer.StaticPlan

import HttpServer.Server.Proxy

set_option autoImplicit false

namespace HttpServer.Server

open Unicode Text HttpServer.Core Framing StateRun

def keptEntries (headers : Headers) : List (Str × Str) :=
  headers.entries.filter fun entry => !stripped headers entry.1

def entryField (entry : Str × Str) : Field := ⟨entry.1, unit ' ' :: entry.2⟩

def upstreamFields (headers : Headers) (parsed : TargetUrl) : List Field :=
  ⟨str "Host", unit ' ' :: hostHeader parsed⟩ :: ⟨str "Connection", str " close"⟩ ::
    (keptEntries headers).map entryField

def upstreamHead (meth : Method) (headers : Headers) (path : Str) (parsed : TargetUrl) :
    RawHead where
  name := methodName meth
  target := path
  version := str "HTTP/1.1"
  fields := upstreamFields headers parsed

@[simp] theorem methodName_method (name : Str) : methodName (method name) = name := by
  unfold method
  split_ifs with get head
  · exact get.symm
  · exact head.symm
  · rfl

theorem encode_line (text rest : Str) :
    encode (text ++ (str "\r\n" ++ rest)) = encodeLine text ++ encode rest := by
  have cut : str "\r\n" ++ rest = unit '\r' :: unit '\n' :: rest := rfl
  have lineFeed := encode_append_ascii [] (unit '\n') rest (by decide)
  rw [List.nil_append] at lineFeed
  rw [cut, encode_append_ascii _ _ _ (by decide), lineFeed, encodeLine, List.append_assoc]
  rfl

theorem encode_headerLines (headers : Headers) (entries : List (Str × Str)) (rest : Str) :
    encode (headerLines headers entries ++ rest) =
      ((entries.filter fun entry => !stripped headers entry.1).map entryField).flatMap
        (fun f => encodeLine f.text) ++ encode rest := by
  induction entries with
  | nil => rfl
  | cons entry entries ih =>
    obtain ⟨k, v⟩ := entry
    by_cases out : stripped headers k = true
    · simpa [headerLines, out] using ih
    · have text : k ++ str ": " ++ v = (entryField (k, v)).text := by
        rw [entryField, Field.text, List.append_assoc]
        rfl
      simp only [headerLines, out, Bool.false_eq_true, if_false, text, List.append_assoc,
        encode_line, ih]
      simp [out]

theorem encode_headText (meth : Method) (headers : Headers) (path : Str) (parsed : TargetUrl) :
    encode (headText meth headers path parsed) =
      (upstreamHead meth headers path parsed).encode := by
  have line : methodName meth ++ str " " ++ path ++ str " HTTP/1.1\r\n" =
      (upstreamHead meth headers path parsed).line ++ str "\r\n" := by
    have version : str " HTTP/1.1\r\n" = unit ' ' :: (str "HTTP/1.1" ++ str "\r\n") := by decide
    have space : str " " = [unit ' '] := by decide
    simp [RawHead.line, upstreamHead, version, space]
  have host : str "Host: " ++ hostHeader parsed =
      Field.text ⟨str "Host", unit ' ' :: hostHeader parsed⟩ := rfl
  have close : str "Connection: close\r\n" =
      Field.text ⟨str "Connection", str " close"⟩ ++ str "\r\n" := by decide
  have last : encode (str "\r\n") = encodeLine [] := by decide
  rw [headText, line]
  simp only [List.append_assoc]
  rw [encode_line, ← List.append_assoc (str "Host: "), host, encode_line, close,
    List.append_assoc, encode_line, encode_headerLines, last]
  simp [RawHead.encode, encodeFields, upstreamHead, upstreamFields, keptEntries]

section

variable {raw : RawHead} {headers : Headers} {parsed : TargetUrl}

theorem entryField_key {entry : Str × Str} (lower : toLower entry.1 = entry.1) :
    (entryField entry).key = entry.1 := lower

theorem stripped_fixed {headers : Headers} {key : Str} (lower : toLower key = key)
    (kept : stripped headers key = false) : key ≠ str "host" ∧ key ≠ str "connection" := by
  simp only [stripped, lower, Bool.or_eq_false_iff, beq_eq_false_iff_ne] at kept
  exact ⟨kept.1.1.1.1.1.1.1, kept.1.1.1.1.1.1.2⟩

theorem stripped_framing {headers : Headers} {key : Str} (framing : key = lengthKey ∨ key = codingKey) :
    stripped headers key = nominated headers key := by
  rcases framing with rfl | rfl
  · have lower : toLower lengthKey = lengthKey := by decide
    simp only [stripped, lower]
    have fixed : (lengthKey == str "host" || lengthKey == str "connection" ||
      lengthKey == str "expect" || lengthKey == str "trailer" || lengthKey == str "keep-alive" ||
      lengthKey == str "proxy-connection" || lengthKey == str "upgrade") = false := by decide
    rw [fixed, Bool.false_or]
  · have lower : toLower codingKey = codingKey := by decide
    simp only [stripped, lower]
    have fixed : (codingKey == str "host" || codingKey == str "connection" ||
      codingKey == str "expect" || codingKey == str "trailer" || codingKey == str "keep-alive" ||
      codingKey == str "proxy-connection" || codingKey == str "upgrade") = false := by decide
    rw [fixed, Bool.false_or]

theorem mem_keptEntries {entry : Str × Str} :
    entry ∈ keptEntries headers ↔ entry ∈ headers.entries ∧ stripped headers entry.1 = false := by
  simp [keptEntries]

theorem upstreamFields_keys (valid : raw.Valid) (collected : Collected raw.fields headers) :
    ((upstreamFields headers parsed).map Field.key).Nodup := by
  have lower : ∀ entry ∈ keptEntries headers, toLower entry.1 = entry.1 := fun entry member =>
    (collected_entry collected valid.unambiguous valid.lines (mem_keptEntries.mp member).1).2.1
  have keys : ((keptEntries headers).map entryField).map Field.key =
      (keptEntries headers).map Prod.fst := by
    rw [List.map_map]
    exact List.map_congr_left lower
  have others : ∀ key ∈ (keptEntries headers).map Prod.fst,
      key ≠ str "host" ∧ key ≠ str "connection" := by
    intro key member
    obtain ⟨entry, inside, rfl⟩ := List.mem_map.mp member
    exact stripped_fixed (lower entry inside) (mem_keptEntries.mp inside).2
  have nodup : ((keptEntries headers).map Prod.fst).Nodup :=
    headers.nodup.sublist (List.filter_sublist.map Prod.fst)
  have host : Field.key ⟨str "Host", unit ' ' :: hostHeader parsed⟩ = str "host" :=
    show toLower (str "Host") = str "host" by decide
  have connection : Field.key ⟨str "Connection", str " close"⟩ = str "connection" := by decide
  simp only [upstreamFields, List.map_cons, host, connection, keys, List.nodup_cons,
    List.mem_cons, not_or]
  exact ⟨⟨by decide, fun member => (others _ member).1 rfl⟩,
    fun member => (others _ member).2 rfl, nodup⟩

theorem mem_upstreamFields {f : Field} :
    f ∈ upstreamFields headers parsed ↔
      f = ⟨str "Host", unit ' ' :: hostHeader parsed⟩ ∨ f = ⟨str "Connection", str " close"⟩ ∨
        ∃ entry ∈ keptEntries headers, entryField entry = f := by
  simp [upstreamFields]

theorem plain_space {v : Str} : Plain (unit ' ' :: v) ↔ Plain v := by
  have cut := wellFormed_append_ascii [] (unit ' ') v (by decide)
  have visible : anyChar (unit ' ' :: v) RequestHeaders.controlChar =
      anyChar v RequestHeaders.controlChar := by
    rw [anyChar, codePoints_cons_ascii _ _ (by decide), List.any_cons]
    rfl
  constructor
  · intro plain
    exact ⟨(cut.mp plain.wellFormed).2, visible ▸ plain.visible⟩
  · intro plain
    exact ⟨cut.mpr ⟨by simp [WellFormed, codePoints], plain.wellFormed⟩, visible ▸ plain.visible⟩

theorem lineText_space {v : Str} (text : LineText v) : LineText (unit ' ' :: v) where
  wellFormed := (wellFormed_append_ascii [] (unit ' ') v (by decide)).mpr
    ⟨by simp [WellFormed, codePoints], text.wellFormed⟩
  noCr member := by
    rcases List.mem_cons.mp member with same | later
    · exact absurd same (by decide)
    · exact text.noCr later
  noLf member := by
    rcases List.mem_cons.mp member with same | later
    · exact absurd same (by decide)
    · exact text.noLf later
  noNul member := by
    rcases List.mem_cons.mp member with same | later
    · exact absurd same (by decide)
    · exact text.noNul later

theorem fieldLine_of {f : Field} (name : RequestHeaders.token f.name = true)
    (value : LineText f.value) : FieldLine f where
  colon member :=
    absurd (tokenChar_range (((token_iff f.name).mp name).2 _ member)).2.2.1 (by decide)
  text := by
    have plain := (plain_token name).lineText
    constructor
    · rw [Field.text, wellFormed_append_ascii _ _ _ (by decide)]
      exact ⟨plain.wellFormed, value.wellFormed⟩
    · simp [Field.text, plain.noCr, value.noCr]
      decide
    · simp [Field.text, plain.noLf, value.noLf]
      decide
    · simp [Field.text, plain.noNul, value.noNul]
      decide

theorem upstreamFields_line (valid : raw.Valid) (collected : Collected raw.fields headers)
    (host : LineText (hostHeader parsed)) :
    ∀ f ∈ upstreamFields headers parsed, FieldLine f := by
  intro f member
  rcases mem_upstreamFields.mp member with rfl | rfl | ⟨entry, kept, rfl⟩
  · exact fieldLine_of (show RequestHeaders.token (str "Host") = true by decide)
      (lineText_space host)
  · exact fieldLine_of (by decide) (plain_literal (by decide)).lineText
  · obtain ⟨name, -, plain⟩ := collected_entry collected valid.unambiguous valid.lines
      (mem_keptEntries.mp kept).1
    exact fieldLine_of name (plain_space.mpr plain).lineText

theorem joined_trimmed {key value : Str} {fields : List Field} {v : Str}
    (only : valuesOf key fields = [value]) (found : joined key (valuesOf key fields) = some v) :
    trim (unit ' ' :: v) = value := by
  rw [only] at found
  obtain rfl : value = v := by simpa [joined] using found
  have member : value ∈ valuesOf key fields := by simp [only]
  rw [valuesOf, List.mem_map] at member
  obtain ⟨f, -, rfl⟩ := member
  exact trim_space_trim f.value

-- A framing header that the client sent once stands in the upstream head with its value,
-- unless the client's `Connection` header names it.
theorem valuesOf_upstream {key value : Str} (valid : raw.Valid)
    (collected : Collected raw.fields headers) (framing : key = lengthKey ∨ key = codingKey)
    (only : valuesOf key raw.fields = [value]) :
    valuesOf key (upstreamFields headers parsed) =
      if nominated headers key then [] else [value] := by
  have found := collected.get key
  have some : joined key (valuesOf key raw.fields) = some value := by simp [only, joined]
  have entry := (OrderedMap.get_eq_some headers key value).mp (found.trans some)
  have other : key ≠ str "host" ∧ key ≠ str "connection" := by
    rcases framing with rfl | rfl <;> decide
  have lower : toLower key = key := by rcases framing with rfl | rfl <;> decide
  by_cases out : nominated headers key = true
  · rw [if_pos out, valuesOf_eq_nil]
    intro f member same
    rcases mem_upstreamFields.mp member with rfl | rfl | ⟨kept, inside, rfl⟩
    · exact other.1 (same.symm.trans (show toLower (str "Host") = str "host" by decide))
    · exact other.2 (same.symm.trans (show toLower (str "Connection") = str "connection" by decide))
    · obtain ⟨inside, stays⟩ := mem_keptEntries.mp inside
      have lowerKept := (collected_entry collected valid.unambiguous valid.lines inside).2.1
      rw [entryField_key lowerKept] at same
      rw [same, stripped_framing framing, out] at stays
      cases stays
  · rw [if_neg out]
    have kept : (key, value) ∈ keptEntries headers :=
      mem_keptEntries.mpr ⟨entry, by rw [stripped_framing framing]; simpa using out⟩
    have member : entryField (key, value) ∈ upstreamFields headers parsed :=
      mem_upstreamFields.mpr (Or.inr (Or.inr ⟨_, kept, rfl⟩))
    have keys : ((upstreamFields headers parsed).map Field.key).Nodup :=
      upstreamFields_keys valid collected
    have values := valuesOf_of_nodup keys member
    rw [entryField_key lower] at values
    rw [values]
    exact congrArg (fun v => [v]) (joined_trimmed only some)

theorem valuesOf_upstream_nil {key : Str} (valid : raw.Valid)
    (collected : Collected raw.fields headers) (framing : key = lengthKey ∨ key = codingKey)
    (none : valuesOf key raw.fields = []) : valuesOf key (upstreamFields headers parsed) = [] := by
  have other : key ≠ str "host" ∧ key ≠ str "connection" := by
    rcases framing with rfl | rfl <;> decide
  rw [valuesOf_eq_nil]
  intro f member same
  rcases mem_upstreamFields.mp member with rfl | rfl | ⟨entry, kept, rfl⟩
  · exact other.1 (same.symm.trans (show toLower (str "Host") = str "host" by decide))
  · exact other.2 (same.symm.trans (show toLower (str "Connection") = str "connection" by decide))
  · obtain ⟨inside, -⟩ := mem_keptEntries.mp kept
    rw [entryField_key (collected_entry collected valid.unambiguous valid.lines inside).2.1] at same
    have absent := (OrderedMap.get_eq_none headers key).mp (by rw [collected.get, none]; rfl)
    exact absent (List.mem_map.mpr ⟨entry, inside, same⟩)

theorem valuesOf_upstream_subset {key : Str} (valid : raw.Valid)
    (collected : Collected raw.fields headers) (framing : key = lengthKey ∨ key = codingKey)
    {value : Str} (member : value ∈ valuesOf key (upstreamFields headers parsed)) :
    value ∈ valuesOf key raw.fields := by
  have isSingle : RequestHeaders.single key = true := by
    rcases framing with rfl | rfl <;> decide
  rcases valid.unambiguous.one _ isSingle with none | ⟨only, one⟩
  · rw [valuesOf_upstream_nil valid collected framing none] at member
    simp at member
  · rw [valuesOf_upstream valid collected framing one] at member
    split_ifs at member
    · simp at member
    · rwa [one]

theorem upstreamFields_unambiguous (valid : raw.Valid) (collected : Collected raw.fields headers)
    (host : Plain (hostHeader parsed)) : Unambiguous (upstreamFields headers parsed) where
  valid f member := by
    rcases mem_upstreamFields.mp member with rfl | rfl | ⟨entry, kept, rfl⟩
    · exact ⟨show RequestHeaders.token (str "Host") = true by decide, (plain_space.mpr host).visible⟩
    · exact ⟨by decide, (plain_literal (by decide)).visible⟩
    · obtain ⟨name, -, plain⟩ := collected_entry collected valid.unambiguous valid.lines
        (mem_keptEntries.mp kept).1
      exact ⟨name, (plain_space.mpr plain).visible⟩
  single key _ := valuesOf_length (upstreamFields_keys valid collected) key
  framing := by
    rcases valid.unambiguous.framing with none | none
    · exact Or.inl (valuesOf_upstream_nil valid collected (Or.inl rfl) none)
    · exact Or.inr (valuesOf_upstream_nil valid collected (Or.inr rfl) none)
  digits value member := valid.unambiguous.digits value
    (valuesOf_upstream_subset valid collected (Or.inl rfl) member)

def blockChunk (piece : Bytes) : Chunk := ⟨Numerals.numeral 16 piece.length, [], piece⟩

def forwardedEnd : LastChunk := ⟨str "0", [], []⟩

theorem numeral_ascii (n : Nat) :
    ∀ u ∈ Numerals.numeral 16 n, 0x20 ≤ u.toNat ∧ u.toNat < 0x7F := by
  intro u member
  have range := Numerals.numeral_range 16 (by omega) (by omega) n u member
  omega

theorem numeral_short {n : Nat} (bound : n ≤ 2147483647) :
    (encode (Numerals.numeral 16 n)).length ≤ 8192 := by
  have digits : (Nat.toDigits 16 n).length ≤ 8 :=
    (Nat.length_toDigits_le_iff (by omega) (by omega)).mpr (by omega)
  rw [length_encode_ascii _ fun u member => by have := (numeral_ascii n u member).2; omega,
    Numerals.numeral, List.length_map]
  omega

theorem blockChunk_valid {piece : Bytes} (more : piece ≠ []) (bound : piece.length ≤ 2147483647) :
    (blockChunk piece).Valid where
  line :=
    { exact := Numerals.nat?_numeral (by omega) (by omega) piece.length
      bound
      tail := Or.inl rfl
      text := by
        simpa [blockChunk] using (plain_ascii (numeral_ascii piece.length)).lineText
      short := by simpa [blockChunk] using numeral_short bound }
  more

theorem forwardedEnd_valid : forwardedEnd.Valid where
  line := ⟨by decide, by omega, Or.inl rfl, lineText_literal (by decide), by decide⟩
  trailers := ⟨by simp [forwardedEnd], by decide, by decide⟩
  unambiguous := unambiguous_nil
  allowed := by simp [forwardedEnd]

theorem writeBlock_chunked (piece : Bytes) : writeBlock true piece = (blockChunk piece).encode := by
  have line := encode_line (Numerals.numeral 16 piece.length) []
  have close : encode (str "\r\n") = crlf := by decide
  rw [List.append_nil] at line
  simp only [writeBlock, if_true, line, close, Chunk.encode, blockChunk, List.append_nil,
    List.append_assoc]
  rfl

-- What `forwardBody` writes for the pieces it read.
def bodyBytes (chunked : Bool) (pieces : List Bytes) : Bytes :=
  pieces.flatMap (writeBlock chunked) ++ if chunked then encode (str "0\r\n\r\n") else []

theorem bodyBytes_fixed (pieces : List Bytes) : bodyBytes false pieces = pieces.flatten := by
  have plain : writeBlock false = id := by
    funext piece
    simp [writeBlock]
  simp [bodyBytes, plain]

theorem bodyBytes_chunked (pieces : List Bytes) :
    bodyBytes true pieces = encodeChunks (pieces.map blockChunk) forwardedEnd := by
  have last : encode (str "0\r\n\r\n") = forwardedEnd.encode := by decide
  simp only [bodyBytes, if_true, last, encodeChunks, List.flatMap_map]
  congr 1
  exact congrArg (pieces.flatMap ·) (funext writeBlock_chunked)

theorem bodyBytes_chunked_ne_nil (pieces : List Bytes) : bodyBytes true pieces ≠ [] := by
  have last : encode (str "0\r\n\r\n") ≠ [] := by decide
  simp [bodyBytes, last]

theorem chunkData_blocks (pieces : List Bytes) :
    chunkData (pieces.map blockChunk) = pieces.flatten := by
  simp [chunkData, List.flatMap_map, blockChunk]

section

variable {σ : Type} [Reader σ]

theorem forwardLoop_ok {block fuel : Nat} {chunked : Bool} {c c' : Connection σ} {bytes : Bytes}
    (run : forwardLoop block chunked fuel c = .ok bytes c') :
    ∃ pieces, piecesLoop block fuel c = .ok pieces c' ∧
      bytes = pieces.flatMap (writeBlock chunked) := by
  induction fuel generalizing c bytes with
  | zero => simp [forwardLoop] at run
  | succ fuel ih =>
    simp only [forwardLoop, bind_ok, ite_ok, pure_ok] at run
    simp only [piecesLoop, bind_ok, ite_ok, pure_ok]
    obtain ⟨piece, d, read, ⟨rfl, rfl, rfl⟩ | ⟨more, rest, e, run, rfl, rfl⟩⟩ := run
    · exact ⟨[], ⟨[], d, read, Or.inl ⟨rfl, by simp⟩⟩, rfl⟩
    · obtain ⟨pieces, reads, rfl⟩ := ih run
      exact ⟨piece :: pieces, ⟨piece, d, read, Or.inr ⟨more, pieces, e, reads, by simp⟩⟩, by simp⟩

theorem forwardBody_ok {block : Nat} {chunked : Bool} {c c' : Connection σ} {bytes : Bytes}
    (run : forwardBody block chunked c = .ok bytes c') :
    ∃ pieces, piecesLoop block (c.unread.length + 1) c = .ok pieces c' ∧
      bytes = bodyBytes chunked pieces := by
  simp only [forwardBody, bind_ok, pure_ok] at run
  obtain ⟨blocks, d, run, rfl, rfl⟩ := run
  obtain ⟨pieces, reads, rfl⟩ := forwardLoop_ok run
  exact ⟨pieces, reads, rfl⟩

end

def requestLine (meth : Method) (path : Str) : Str :=
  methodName meth ++ unit ' ' :: (path ++ unit ' ' :: str "HTTP/1.1")

/-- The headers of the client, the path and the upstream leave a head that frames the same
body and fits the limits of the reader. -/
structure Forwardable (hasBody : Bool) (meth : Method) (headers : Headers) (path : Str)
    (parsed : TargetUrl) : Prop where
  framing : hasBody = true → ∀ key ∈ [lengthKey, codingKey], headers.contains key = true →
    nominated headers key = false
  nonempty : path ≠ []
  space : unit ' ' ∉ path
  text : LineText path
  host : Plain (hostHeader parsed)
  line : (encode (requestLine meth path)).length ≤ 8192
  count : (keptEntries headers).length + 2 ≤ 100
  size : (encodeFields (upstreamFields headers parsed)).length ≤ 16384

-- Read by the same rules, the bytes are one request with this method and this body.
def Reparsed (bytes : Bytes) (meth : Method) (data : Bytes) : Prop :=
  ∀ (τ : Type) [Reader τ] (source : τ) (maxLen : Nat), 0 < maxLen →
    Reader.unread source = bytes →
    ∃ head c c', readRequest (Connection.new source) = .ok head c ∧ head.request.meth = meth ∧
      wholeBody maxLen c = .ok data c' ∧ c'.unread = []

theorem contains_of_values {fields : List Field} {headers : Headers} {key value : Str}
    (collected : Collected fields headers) (only : valuesOf key fields = [value]) :
    headers.contains key = true := by
  rw [collected.contains, only]
  simp

theorem upstream_announces (parsed : TargetUrl) {body : Body} {pieces : List Bytes} (valid : raw.Valid)
    (collected : Collected raw.fields headers) (announces : raw.Announces body) (path : Str)
    (kept : body ≠ .empty → ∀ key ∈ [lengthKey, codingKey], headers.contains key = true →
      nominated headers key = false)
    (blocks : ∀ piece ∈ pieces, piece ≠ [] ∧ piece.length ≤ 2147483647)
    (none : body = .empty → pieces = [])
    (total : ∀ n, body = .fixed n → pieces.flatten.length = n) :
    ∃ after, (upstreamHead (method raw.name) headers path parsed).Announces after ∧
      Remains after (bodyBytes (headers.contains codingKey) pieces) pieces.flatten [] := by
  have ended (notChunked : headers.contains codingKey = false) (nothing : pieces = []) :
      Remains .empty (bodyBytes (headers.contains codingKey) pieces) pieces.flatten [] := by
    rw [notChunked, bodyBytes_fixed, nothing]
    exact .ended []
  have absent (noCoding : valuesOf codingKey raw.fields = []) :
      headers.contains codingKey = false := by
    rw [← Bool.not_eq_true, collected.contains, noCoding]
    simp
  cases announces with
  | nothing noLength noCoding =>
    exact ⟨.empty, .nothing (valuesOf_upstream_nil valid collected (Or.inl rfl) noLength)
      (valuesOf_upstream_nil valid collected (Or.inr rfl) noCoding),
      ended (absent noCoding) (none rfl)⟩
  | length value n only exact bound =>
    have noCoding : valuesOf codingKey raw.fields = [] := by
      rcases valid.unambiguous.framing with empty | empty
      · simp [empty] at only
      · exact empty
    have upstreamCoding : valuesOf codingKey (upstreamFields headers parsed) = [] :=
      valuesOf_upstream_nil valid collected (Or.inr rfl) noCoding
    have values : valuesOf lengthKey (upstreamFields headers parsed) = _ :=
      valuesOf_upstream valid collected (Or.inl rfl) only
    by_cases zero : n = 0
    · rw [if_pos zero] at none
      refine ⟨.empty, ?_, ended (absent noCoding) (none rfl)⟩
      by_cases out : nominated headers lengthKey = true
      · rw [if_pos out] at values
        exact .nothing values upstreamCoding
      · rw [if_neg out] at values
        have announced : (upstreamHead (method raw.name) headers path parsed).Announces
            (if n = 0 then .empty else .fixed n) := .length value n values exact bound
        rwa [if_pos zero] at announced
    · rw [if_neg zero] at kept total
      have stays := kept (by simp) lengthKey (by simp) (contains_of_values collected only)
      rw [stays, if_neg (by simp)] at values
      have announced : (upstreamHead (method raw.name) headers path parsed).Announces
          (if n = 0 then .empty else .fixed n) := .length value n values exact bound
      rw [if_neg zero, ← total n rfl] at announced
      refine ⟨_, announced, ?_⟩
      have more : pieces.flatten ≠ [] := fun empty => by
        have := total n rfl
        rw [empty] at this
        exact zero this.symm
      have remains := Remains.fixed pieces.flatten [] more
      rw [absent noCoding, bodyBytes_fixed]
      rwa [List.append_nil] at remains
  | chunked value only same version =>
    have values : valuesOf codingKey (upstreamFields headers parsed) = _ :=
      valuesOf_upstream valid collected (Or.inr rfl) only
    have stays := kept (by simp) codingKey (by simp) (contains_of_values collected only)
    rw [stays, if_neg (by simp)] at values
    refine ⟨.chunked 0, .chunked value values same rfl, ?_⟩
    have chunks : ∀ chunk ∈ pieces.map blockChunk, chunk.Valid := by
      intro chunk member
      obtain ⟨piece, inside, rfl⟩ := List.mem_map.mp member
      exact blockChunk_valid (blocks piece inside).1 (blocks piece inside).2
    have remains := Remains.chunks (pieces.map blockChunk) forwardedEnd [] chunks forwardedEnd_valid
    rw [contains_of_values collected only, bodyBytes_chunked]
    rwa [chunkData_blocks, List.append_nil] at remains

theorem requestLine_text {name path : Str} (token : RequestHeaders.token name = true)
    (text : LineText path) : LineText (requestLine (method name) path) := by
  have plain := (plain_token token).lineText
  have version : LineText (str "HTTP/1.1") := lineText_literal (by decide)
  rw [requestLine, methodName_method]
  constructor
  · rw [wellFormed_append_ascii _ _ _ (by decide), wellFormed_append_ascii _ _ _ (by decide)]
    exact ⟨plain.wellFormed, text.wellFormed, version.wellFormed⟩
  · simp [plain.noCr, text.noCr, version.noCr]
    decide
  · simp [plain.noLf, text.noLf, version.noLf]
    decide
  · simp [plain.noNul, text.noNul, version.noNul]
    decide

theorem upstreamHead_valid {hasBody : Bool} {path : Str} (valid : raw.Valid)
    (collected : Collected raw.fields headers)
    (forwardable : Forwardable hasBody (method raw.name) headers path parsed) :
    (upstreamHead (method raw.name) headers path parsed).Valid where
  name := by simpa [upstreamHead] using valid.name
  space := forwardable.space
  version := Or.inl rfl
  line := requestLine_text valid.name forwardable.text
  lines := upstreamFields_line valid collected forwardable.host.lineText
  target := forwardable.nonempty
  size := by
    have bound := forwardable.line
    rw [length_encodeLine]
    exact Nat.add_le_add_right bound 2
  fields :=
    { lines := upstreamFields_line valid collected forwardable.host.lineText
      count := by
        have count := forwardable.count
        simp only [upstreamHead, upstreamFields, List.length_cons, List.length_map]
        omega
      size := forwardable.size }
  unambiguous := upstreamFields_unambiguous valid collected forwardable.host

theorem forwardable_reparsed {hasBody : Bool} {path : Str} {after : Body} {bytes data : Bytes}
    (valid : raw.Valid) (collected : Collected raw.fields headers)
    (forwardable : Forwardable hasBody (method raw.name) headers path parsed)
    (announces : (upstreamHead (method raw.name) headers path parsed).Announces after)
    (remains : Remains after bytes data []) :
    Reparsed ((upstreamHead (method raw.name) headers path parsed).encode ++ bytes)
      (method raw.name) data := by
  intro τ reader source maxLen positive unread
  obtain ⟨got, c, run, -, left, state⟩ := readRequest_run (c := Connection.new source)
    (upstreamHead_valid valid collected forwardable) announces rfl unread
  rw [← left, ← state] at remains
  obtain ⟨c', whole, -, rest⟩ := wholeBody_run _ positive remains
  exact ⟨_, c, c', run, by simp [RawHead.head, upstreamHead], whole, rest⟩

-- The request line splits where it was put together only if the path has no space.
theorem path_of_line {name path : Str} {other : RawHead}
    (token : RequestHeaders.token name = true) (otherToken : RequestHeaders.token other.name = true)
    (space : unit ' ' ∉ other.target)
    (version : other.version = str "HTTP/1.1" ∨ other.version = str "HTTP/1.0")
    (same : other.line = requestLine (method name) path) : path = other.target := by
  have clean : unit ' ' ∉ name := fun member =>
    absurd (tokenChar_range (((token_iff name).mp token).2 _ member)).1 (by decide)
  have last : unit ' ' ∉ str "HTTP/1.1" := by decide
  have parts := split_line other otherToken space version
  rw [same, requestLine, methodName_method, split,
    List.splitOn_append_cons_self_of_not_mem clean, List.splitOn_append_cons_self,
    List.splitOn_eq_singleton last] at parts
  have one : path.splitOn (unit ' ') = [other.target] := by
    rcases pieces : path.splitOn (unit ' ') with _ | ⟨first, _ | ⟨second, rest⟩⟩
    · exact absurd pieces (List.splitOn_ne_nil _ _)
    · simp only [pieces, List.cons_append, List.nil_append, List.cons.injEq] at parts
      rw [parts.2.1]
    · simp [pieces] at parts
  have whole : [unit ' '].intercalate (path.splitOn (unit ' ')) = path :=
    List.intercalate_splitOn _
  rw [one] at whole
  simpa [List.intercalate] using whole.symm

theorem framing_dropped {key : Str} (valid : raw.Valid) (collected : Collected raw.fields headers)
    (framing : key = lengthKey ∨ key = codingKey) (present : headers.contains key = true)
    (named : nominated headers key = true) :
    valuesOf lengthKey (upstreamFields headers parsed) = [] ∧
      valuesOf codingKey (upstreamFields headers parsed) = [] := by
  have isSingle : RequestHeaders.single key = true := by
    rcases framing with rfl | rfl <;> decide
  have some := (collected.contains key).mp present
  have dropped : valuesOf key (upstreamFields headers parsed) = [] := by
    rcases valid.unambiguous.one _ isSingle with none | ⟨value, one⟩
    · exact absurd none some
    · rw [valuesOf_upstream valid collected framing one, if_pos named]
  rcases framing with rfl | rfl
  · refine ⟨dropped, valuesOf_upstream_nil valid collected (Or.inr rfl) ?_⟩
    exact valid.unambiguous.framing.resolve_left some
  · refine ⟨valuesOf_upstream_nil valid collected (Or.inl rfl) ?_, dropped⟩
    exact valid.unambiguous.framing.resolve_right some

theorem reparsed_forwardable {hasBody : Bool} {path : Str} {bytes data : Bytes}
    (valid : raw.Valid) (collected : Collected raw.fields headers) (text : LineText path)
    (host : LineText (hostHeader parsed)) (leftover : hasBody = true → data = [] → bytes ≠ [])
    (reparsed : Reparsed ((upstreamHead (method raw.name) headers path parsed).encode ++ bytes)
      (method raw.name) data) :
    Forwardable hasBody (method raw.name) headers path parsed := by
  obtain ⟨got, c, c', run, -, whole, rest⟩ := reparsed Bytes _ 1 (by omega) rfl
  obtain ⟨other, _, unread, otherValid, -, -, announces⟩ := readRequest_ok run
  have line := requestLine_text valid.name text
  have fields : ∀ f ∈ upstreamFields headers parsed, FieldLine f :=
    upstreamFields_line valid collected host
  change (upstreamHead (method raw.name) headers path parsed).encode ++ bytes = _ at unread
  simp only [RawHead.encode, List.append_assoc] at unread
  obtain ⟨sameLine, unread⟩ := encodeLine_unique line otherValid.line unread
  obtain ⟨sameFields, sameBytes⟩ := encodeFields_unique fields otherValid.fields.lines unread
  change upstreamFields headers parsed = other.fields at sameFields
  have samePath := path_of_line valid.name otherValid.name otherValid.space otherValid.version
    sameLine.symm
  constructor
  · intro some key framing present
    by_contra named
    rw [Bool.not_eq_false] at named
    have nothing : valuesOf lengthKey (upstreamFields headers parsed) = [] ∧
        valuesOf codingKey (upstreamFields headers parsed) = [] :=
      framing_dropped valid collected (by simpa using framing) present named
    have state : c.body = .empty := by
      generalize c.body = body at announces
      cases announces with
      | nothing => rfl
      | length _ _ only => simp [← sameFields, nothing.1] at only
      | chunked _ only => simp [← sameFields, nothing.2] at only
    have remains : Remains c.body c.unread [] c.unread := by
      rw [state]
      exact .ended c.unread
    obtain ⟨d, empty, -, left⟩ := wholeBody_run 1 (by omega) remains
    rw [whole] at empty
    cases empty
    exact leftover some rfl (sameBytes.trans (left.symm.trans rest))
  · rw [samePath]
    exact otherValid.target
  · rw [samePath]
    exact otherValid.space
  · exact text
  · have member : ⟨str "Host", unit ' ' :: hostHeader parsed⟩ ∈ other.fields := by
      rw [← sameFields]
      exact mem_upstreamFields.mpr (Or.inl rfl)
    have visible := (otherValid.unambiguous.valid _ member).value
    exact plain_space.mp ⟨(lineText_space host).wellFormed, visible⟩
  · have size := otherValid.size
    rw [← sameLine, length_encodeLine] at size
    exact Nat.le_of_add_le_add_right size
  · have count := otherValid.fields.count
    rw [← sameFields] at count
    simp only [upstreamFields, List.length_cons, List.length_map] at count
    omega
  · rw [sameFields]
    exact otherValid.fields.size

end

theorem proxyHttpRequest_sent {σ : Type} [Reader σ] {env : Upstream} {block : Nat} {meth : Method}
    {headers : Headers} {target url : Str} {c c' : Connection σ} {upstream client : Bytes}
    (run : proxyHttpRequest env block meth headers target url c = .ok (.sent upstream client) c') :
    ∃ parsed pieces, parseTargetUrl url = some parsed ∧
      piecesLoop block (c.unread.length + 1) c = .ok pieces c' ∧
      upstream = (upstreamHead meth headers (upstreamPath parsed target) parsed).encode ++
        bodyBytes (headers.contains codingKey) pieces := by
  simp only [proxyHttpRequest, ite_ok, pure_ok, reduceCtorEq, false_and, and_false, false_or] at run
  obtain ⟨-, run⟩ := run
  cases found : parseTargetUrl url with
  | none => simp [found] at run
  | some parsed =>
    simp only [found, ite_ok, pure_ok, bind_ok, get_ok, reduceCtorEq, false_and, and_false,
      false_or, Forwarded.sent.injEq] at run
    obtain ⟨-, _, _, ⟨rfl, rfl⟩, body, d, forwarded, ⟨rfl, -⟩, rfl⟩ := run
    obtain ⟨pieces, reads, rfl⟩ := forwardBody_ok forwarded
    exact ⟨parsed, pieces, rfl, reads, by rw [encode_headText]; rfl⟩

/-- `Forwardable` is enough for any path and upstream, and necessary where these cannot break
the lines they stand on. -/
theorem proxyHttpRequest_boundaries {σ : Type} [Reader σ] {env : Upstream} {block : Nat}
    {target url : Str} {c d e : Connection σ} {head : Head} {upstream client : Bytes}
    (accepted : readRequest c = .ok head d)
    (forwarded : proxyHttpRequest env block head.request.meth head.request.headers target url d =
      .ok (.sent upstream client) e) :
    ∃ parsed data, parseTargetUrl url = some parsed ∧ wholeBody block d = .ok data e ∧
      (Forwardable (hasBody d) head.request.meth head.request.headers
          (upstreamPath parsed target) parsed →
        Reparsed upstream head.request.meth data) ∧
      (LineText (upstreamPath parsed target) → LineText (hostHeader parsed) →
        Reparsed upstream head.request.meth data →
        Forwardable (hasBody d) head.request.meth head.request.headers
          (upstreamPath parsed target) parsed) := by
  obtain ⟨raw, headers, -, valid, collected, rfl, announces⟩ := readRequest_ok accepted
  obtain ⟨parsed, pieces, found, reads, rfl⟩ := proxyHttpRequest_sent forwarded
  obtain ⟨-, blocks, none, total⟩ := piecesLoop_ok announces.bounded reads
  refine ⟨parsed, pieces.flatten, found, (map_ok ..).mpr ⟨pieces, reads, rfl⟩, ?_, ?_⟩
  · intro forwardable
    have kept : d.body ≠ .empty → ∀ key ∈ [lengthKey, codingKey], headers.contains key = true →
        nominated headers key = false := fun some =>
      forwardable.framing (by simp [hasBody, some])
    obtain ⟨after, announced, remains⟩ := upstream_announces parsed valid collected
      announces (upstreamPath parsed target) kept blocks none total
    exact forwardable_reparsed valid collected forwardable announced remains
  · intro text host reparsed
    refine reparsed_forwardable valid collected text host ?_ reparsed
    intro some nothing
    rw [hasBody, decide_eq_true_eq] at some
    generalize d.body = body at announces some total
    cases announces with
    | nothing => exact absurd rfl some
    | length value n =>
      have zero : n ≠ 0 := fun zero => some (if_pos zero)
      rw [if_neg zero] at total
      have size := total n rfl
      rw [nothing] at size
      exact absurd size.symm zero
    | chunked value only =>
      have chunked := contains_of_values collected only
      change bodyBytes (headers.contains codingKey) pieces ≠ []
      rw [chunked]
      exact bodyBytes_chunked_ne_nil pieces

-- A client names its own `Content-Length` in `Connection`, and its body is a request.
def smuggling : RawHead where
  name := str "POST"
  target := str "/"
  version := str "HTTP/1.1"
  fields := [⟨str "Connection", str " content-length"⟩, ⟨str "Content-Length", str " 23"⟩]

def smugglingHeaders : Headers :=
  OrderedMap.ofList [(str "connection", str "content-length"), (lengthKey, str "23")]

def smuggledBody : Bytes := encode (str "GET /admin HTTP/1.1\r\n\r\n")

def smuggledUpstream : Bytes :=
  encode (str "POST / HTTP/1.1\r\nHost: up\r\nConnection: close\r\n\r\n") ++ smuggledBody

def openUpstream : Upstream := ⟨fun _ => true, fun _ => true⟩

theorem smuggling_accepted :
    readRequest (Connection.new (smuggling.encode ++ smuggledBody)) =
      .ok (smuggling.head smugglingHeaders) ⟨[], smuggledBody, .fixed 23⟩ :=
  value?_eq_some.mp (by decide +kernel)

theorem smuggling_forwarded :
    proxyHttpRequest openUpstream 65536 (.other (str "POST")) smugglingHeaders (str "/")
        (str "http://up") (⟨[], smuggledBody, .fixed 23⟩ : Connection Bytes) =
      .ok (.sent smuggledUpstream []) ⟨[], [], .empty⟩ :=
  value?_eq_some.mp (by decide +kernel)

theorem proxyHttpRequest_boundaries_smuggling :
    ∃ parsed data, parseTargetUrl (str "http://up") = some parsed ∧
      wholeBody 65536 (⟨[], smuggledBody, .fixed 23⟩ : Connection Bytes) =
        .ok data ⟨[], [], .empty⟩ ∧
      (Forwardable true (.other (str "POST")) smugglingHeaders
          (upstreamPath parsed (str "/")) parsed →
        Reparsed smuggledUpstream (.other (str "POST")) data) ∧
      (LineText (upstreamPath parsed (str "/")) → LineText (hostHeader parsed) →
        Reparsed smuggledUpstream (.other (str "POST")) data →
        Forwardable true (.other (str "POST")) smugglingHeaders
          (upstreamPath parsed (str "/")) parsed) :=
  proxyHttpRequest_boundaries smuggling_accepted smuggling_forwarded

-- The body of the client's one request is a second request to the upstream.
theorem smuggling_splits :
    readRequest (Connection.new (smuggling.encode ++ smuggledBody)) =
        .ok (smuggling.head smugglingHeaders) ⟨[], smuggledBody, .fixed 23⟩ ∧
      proxyHttpRequest openUpstream 65536 (.other (str "POST")) smugglingHeaders (str "/")
          (str "http://up") (⟨[], smuggledBody, .fixed 23⟩ : Connection Bytes) =
        .ok (.sent smuggledUpstream []) ⟨[], [], .empty⟩ ∧
      ¬Reparsed smuggledUpstream (.other (str "POST")) smuggledBody := by
  refine ⟨smuggling_accepted, smuggling_forwarded, ?_⟩
  intro reparsed
  obtain ⟨head, c, c', run, -, whole, -⟩ := reparsed Bytes smuggledUpstream 1 (by omega) rfl
  have state : (value? (readRequest (Connection.new smuggledUpstream))).map (·.2.body) =
      some .empty := by decide +kernel
  rw [run] at state
  have body : c.body = .empty := by simpa [value?] using state
  have remains : Remains c.body c.unread [] c.unread := by
    rw [body]
    exact .ended c.unread
  obtain ⟨d, empty, -⟩ := wholeBody_run 1 (by omega) remains
  rw [whole] at empty
  have nothing : smuggledBody = [] := (EStateM.Result.ok.inj empty).1
  exact absurd nothing (by decide)

end HttpServer.Server

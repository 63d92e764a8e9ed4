import HttpServer.Framing.Body

set_option autoImplicit false

namespace HttpServer.Framing

open Unicode StateRun

inductive RawBody where
  | none
  | fixed (data : Bytes)
  | chunked (chunks : List Chunk) (last : LastChunk)

def RawBody.encode : RawBody → Bytes
  | .none => []
  | .fixed data => data
  | .chunked chunks last => encodeChunks chunks last

def RawBody.data : RawBody → Bytes
  | .none => []
  | .fixed data => data
  | .chunked chunks _ => chunkData chunks

structure Message where
  head : RawHead
  body : RawBody

def Message.encode (message : Message) : Bytes := message.head.encode ++ message.body.encode

inductive Message.Framed : Message → Prop
  | none (head : RawHead) (noLength : valuesOf lengthKey head.fields = [])
      (noCoding : valuesOf codingKey head.fields = []) : Framed ⟨head, .none⟩
  | fixed (head : RawHead) (data : Bytes) (value : Str)
      (only : valuesOf lengthKey head.fields = [value])
      (exact : Numerals.nat? 10 value = some data.length) (bound : data.length ≤ 2147483647) :
      Framed ⟨head, .fixed data⟩
  | chunked (head : RawHead) (chunks : List Chunk) (last : LastChunk) (value : Str)
      (only : valuesOf codingKey head.fields = [value])
      (same : Text.toLower value = str "chunked") (version : head.version = str "HTTP/1.1")
      (valid : ∀ chunk ∈ chunks, chunk.Valid) (lastValid : last.Valid) :
      Framed ⟨head, .chunked chunks last⟩

structure Message.WellFormed (message : Message) : Prop where
  head : message.head.Valid
  body : message.Framed

theorem Message.Framed.announces {message : Message} (framed : message.Framed) (rest : Bytes) :
    ∃ body, message.head.Announces body ∧
      Remains body (message.body.encode ++ rest) message.body.data rest := by
  cases framed with
  | none head noLength noCoding =>
    exact ⟨.empty, .nothing noLength noCoding, .ended rest⟩
  | fixed head data value only exact bound =>
    refine ⟨_, .length value data.length only exact bound, ?_⟩
    by_cases empty : data = []
    · subst empty
      exact .ended rest
    · rw [if_neg (fun none => empty (List.length_eq_zero_iff.mp none))]
      exact .fixed data rest empty
  | chunked head chunks last value only same version valid lastValid =>
    exact ⟨.chunked 0, .chunked value only same version, .chunks chunks last rest valid lastValid⟩

section

variable {σ : Type} [Reader σ]

-- One request: its head, some calls for its body, and the rest of the body dropped.
def exchange (maxima : List Nat) : ReadM σ (Head × List Bytes) := do
  let head ← readRequest
  let pieces ← maxima.mapM readBody
  drain
  return (head, pieces)

def session (calls : List (List Nat)) : ReadM σ (List (Head × List Bytes)) :=
  calls.mapM exchange

structure Message.Yields (message : Message) (head : Head) (pieces : List Bytes) : Prop where
  meth : head.request.meth = method message.head.name
  target : head.request.target = message.head.target
  headers : Collected message.head.fields head.request.headers
  http11 : head.http11 = message.head.http11
  data : pieces.flatten <+: message.body.data
  finished : [] ∈ pieces → pieces.flatten = message.body.data

theorem mapM_readBody_run {maxima : List Nat} {c : Connection σ} {left rest : Bytes}
    (positive : ∀ maxLen ∈ maxima, 0 < maxLen) (remains : Remains c.body c.unread left rest) :
    ∃ pieces after c', maxima.mapM readBody c = .ok pieces c' ∧ left = pieces.flatten ++ after ∧
      Remains c'.body c'.unread after rest ∧ ([] ∈ pieces → after = []) := by
  induction maxima generalizing c left with
  | nil => exact ⟨[], left, c, by simp, rfl, remains, by simp⟩
  | cons maxLen maxima ih =>
    simp only [List.mem_cons, forall_eq_or_imp] at positive
    obtain ⟨piece, after, d, run, whole, remains, -, finished⟩ :=
      readBody_run _ positive.1 remains
    obtain ⟨pieces, last, c', more, rest', remains, closed⟩ := ih positive.2 remains
    refine ⟨piece :: pieces, last, c', ?_, ?_, remains, ?_⟩
    · simp only [List.mapM_cons, bind_ok, pure_ok]
      exact ⟨piece, d, run, pieces, c', more, rfl, rfl⟩
    · rw [List.flatten_cons, List.append_assoc, ← rest', whole]
    · intro member
      rcases List.mem_cons.mp member with none | later
      · have nothing := (finished none.symm).1
        rw [nothing] at whole
        have := (List.append_eq_nil_iff.mp whole.symm).2
        rw [rest'] at this
        exact (List.append_eq_nil_iff.mp this).2
      · exact closed later

theorem exchange_run {maxima : List Nat} {message : Message} {c : Connection σ} {rest : Bytes}
    (wellFormed : message.WellFormed) (positive : ∀ maxLen ∈ maxima, 0 < maxLen)
    (finished : c.body = .empty) (unread : c.unread = message.encode ++ rest) :
    ∃ head pieces c', exchange maxima c = .ok (head, pieces) c' ∧ message.Yields head pieces ∧
      c'.body = .empty ∧ c'.unread = rest := by
  rw [Message.encode, List.append_assoc] at unread
  obtain ⟨body, announces, remains⟩ := wellFormed.body.announces rest
  obtain ⟨headers, d, readHead, collected, unread, state⟩ :=
    readRequest_run wellFormed.head announces finished unread
  rw [← state, ← unread] at remains
  obtain ⟨pieces, after, e, readPieces, whole, remains, closed⟩ :=
    mapM_readBody_run positive remains
  obtain ⟨c', drained, body, left⟩ := drain_run remains
  refine ⟨message.head.head headers, pieces, c', ?_, ?_, body, left⟩
  · simp only [exchange, bind_ok, pure_ok]
    exact ⟨_, d, readHead, pieces, e, readPieces, (), c', drained, rfl, rfl⟩
  · refine ⟨rfl, rfl, collected, rfl, ⟨after, whole.symm⟩, ?_⟩
    intro member
    rw [whole, closed member, List.append_nil]

theorem session_run {script : List (Message × List Nat)} {c : Connection σ} {tail : Bytes}
    (wellFormed : ∀ entry ∈ script, entry.1.WellFormed)
    (positive : ∀ entry ∈ script, ∀ maxLen ∈ entry.2, 0 < maxLen) (finished : c.body = .empty)
    (unread : c.unread = script.flatMap (fun entry => entry.1.encode) ++ tail) :
    ∃ results c', session (script.map Prod.snd) c = .ok results c' ∧
      List.Forall₂ (fun entry result => entry.1.Yields result.1 result.2) script results ∧
      c'.body = .empty ∧ c'.unread = tail := by
  induction script generalizing c with
  | nil => exact ⟨[], c, by simp [session], .nil, finished, unread⟩
  | cons entry script ih =>
    simp only [List.mem_cons, forall_eq_or_imp] at wellFormed positive
    rw [List.flatMap_cons, List.append_assoc] at unread
    obtain ⟨head, pieces, d, run, yields, finished, unread⟩ :=
      exchange_run wellFormed.1 positive.1 finished unread
    obtain ⟨results, c', more, all, facts⟩ := ih wellFormed.2 positive.2 finished unread
    refine ⟨(head, pieces) :: results, c', ?_, .cons yields all, facts⟩
    simp only [session, List.map_cons, List.mapM_cons, bind_ok, pure_ok]
    exact ⟨(head, pieces), d, run, results, c', more, rfl, rfl⟩

/-- Whatever is read of each body, the next request starts where the last message ended. -/
theorem session_in_step {s : List (Message × List Nat)} {source : σ} {tail : Bytes}
    (wellFormed : ∀ entry ∈ s, entry.1.WellFormed)
    (positive : ∀ entry ∈ s, ∀ maxLen ∈ entry.2, 0 < maxLen)
    (unread : Reader.unread source = s.flatMap (fun entry => entry.1.encode) ++ tail) :
    ∃ results c', session (s.map Prod.snd) (Connection.new source) = .ok results c' ∧
      List.Forall₂ (fun entry result => entry.1.Yields result.1 result.2) s results ∧
      c'.body = .empty ∧ c'.unread = tail :=
  session_run wellFormed positive rfl unread

end

def uploadHead : RawHead where
  name := str "POST"
  target := str "/upload"
  version := str "HTTP/1.1"
  fields := [⟨str "Host", str " localhost"⟩, ⟨str "Transfer-Encoding", str " chunked"⟩]

def helloChunk : Chunk := ⟨str "5", str ";part=1", encode (str "hello")⟩

def checkedEnd : LastChunk := ⟨str "0", [], [⟨str "X-Checksum", str " ok"⟩]⟩

def upload : Message := ⟨uploadHead, .chunked [helloChunk] checkedEnd⟩

theorem fieldLines_upload : FieldLines uploadHead.fields where
  lines := by
    have plain : ∀ f ∈ uploadHead.fields, unit ':' ∉ f.name ∧
        f.text.all (fun u => 0x20 ≤ u.toNat ∧ u.toNat < 0x80) = true := by decide +kernel
    exact fun f member => ⟨(plain f member).1, lineText_literal (plain f member).2⟩
  count := by decide
  size := by decide +kernel

theorem upload_wellFormed : upload.WellFormed where
  head :=
    { name := by decide +kernel
      space := by decide +kernel
      version := Or.inl rfl
      line := lineText_literal (by decide +kernel)
      lines := fieldLines_upload.lines
      target := by decide
      size := by decide +kernel
      fields := fieldLines_upload
      unambiguous := (addFields_ok (show addFields ∅ _ = some (OrderedMap.ofList
        [(str "host", str "localhost"), (codingKey, str "chunked")]) by decide +kernel)).1 }
  body := by
    refine .chunked uploadHead [helloChunk] checkedEnd (str "chunked") (by decide +kernel)
      (by decide +kernel) rfl ?_ ?_
    · intro chunk member
      obtain rfl := List.mem_singleton.mp member
      exact ⟨⟨by decide +kernel, by decide +kernel, Or.inr ⟨str "part=1", by decide⟩,
        lineText_literal (by decide +kernel), by decide +kernel⟩, by decide +kernel⟩
    · have plain : ∀ f ∈ checkedEnd.trailers, (unit ':' ∉ f.name ∧
          f.text.all (fun u => 0x20 ≤ u.toNat ∧ u.toNat < 0x80) = true) ∧
            trailerKey f.key = false := by
        decide +kernel
      exact {
        line := ⟨by decide +kernel, by decide, Or.inl rfl, lineText_literal (by decide +kernel),
          by decide +kernel⟩
        trailers := ⟨fun f member => ⟨(plain f member).1.1, lineText_literal (plain f member).1.2⟩,
          by decide, by decide +kernel⟩
        unambiguous := (addFields_ok (show addFields ∅ _ = some (OrderedMap.ofList
          [(str "x-checksum", str "ok")]) by decide +kernel)).1
        allowed := fun f member => (plain f member).2 }

theorem session_in_step_upload :
    ∃ results c', session [[3, 3], []] (Connection.new
        (upload.encode ++ (upload.encode ++ encode (str "GET")))) = .ok results c' ∧
      List.Forall₂ (fun entry result => entry.1.Yields result.1 result.2)
        [(upload, [3, 3]), (upload, [])] results ∧
      c'.body = .empty ∧ c'.unread = encode (str "GET") :=
  session_in_step (s := [(upload, [3, 3]), (upload, [])])
    (by simpa using upload_wellFormed) (by simp) (by simp [Reader.unread])

end HttpServer.Framing

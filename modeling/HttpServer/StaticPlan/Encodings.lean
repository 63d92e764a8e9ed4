import HttpServer.StaticPlan.Lengths

set_option autoImplicit false

namespace HttpServer.StaticPlan

open Unicode Text HttpServer.Core Dialogue

/-- The run ends in the answers that make `file` the representation in the encoding `enc`. -/
structure Encodes (p : Planner) (past : Past) (choice : Choice) (file : File) (enc : Str) : Prop where
  regular : file.kind = 1
  encoding : choice.encoding = some enc
  taken : ∃ before more path index missing i, past = before ++ more ∧
    Turn p before path index missing i choice ∧ Taken choice file none more

section

variable {p : Planner}

-- A file that is taken for an encoded choice is answered without a sample.
theorem Turn.run_taken {before more : Past} {path : Str} {index : Bool} {missing : Step} {i : Nat}
    {choice : Choice} {file : File} {enc : Str} (turn : Turn p before path index missing i choice)
    (regular : file.kind = 1) (encoding : choice.encoding = some enc)
    (taken : Taken choice file none more) :
    Run (start p.config p.request p.mime) (before ++ more)
      (.done (.responds (p.sent (p.fileReply file choice.represented (some enc) none)))) := by
  apply turn.run.trans
  have served : p.serve file choice.represented choice.encoding =
      .done (.responds (p.sent (p.fileReply file choice.represented (some enc) none))) := by
    rw [encoding]
    rfl
  cases taken with
  | plain other =>
    refine run_opens (some file) ?_
    simp only [regular, other, if_true, if_false, served]
    exact .here _
  | unzipped bytes compressed magic =>
    rw [compressed] at served
    refine run_opens (some file) ?_
    simp only [regular, compressed, if_true]
    refine run_reads bytes ?_
    simp only [magic, if_true, served]
    exact .here _

theorem Encodes.run {past : Past} {choice : Choice} {file : File} {enc : Str}
    (encodes : Encodes p past choice file enc) :
    Run (start p.config p.request p.mime) past
      (.done (.responds (p.sent (p.fileReply file choice.represented (some enc) none)))) := by
  obtain ⟨before, more, path, index, missing, i, rfl, turn, taken⟩ := encodes.taken
  exact turn.run_taken encodes.regular encodes.encoding taken

theorem Encodes.extension {past : Past} {choice : Choice} {file : File} {enc : Str}
    (encodes : Encodes p past choice file enc) : Extension choice.path enc := by
  obtain ⟨before, more, path, index, missing, i, rfl, turn, taken⟩ := encodes.taken
  exact representation_extension (List.mem_of_getElem? turn.chosen) encodes.encoding

theorem Encodes.sent {past : Past} {choice : Choice} {file : File} {enc : Str} {response : Response}
    (encodes : Encodes p past choice file enc)
    (run : Run (start p.config p.request p.mime) past (.done (.responds response))) :
    response = p.sent (p.fileReply file choice.represented (some enc) none) := by
  have same := run.unique encodes.run
  cases same
  rfl

theorem fileHeaders_encoding (file : File) (path : Str) (encoding : Option Str)
    (sample : Option Bytes) :
    (p.fileHeaders file path encoding sample).get (str "Content-Encoding") = encoding := by
  have vary : str "Content-Encoding" ≠ str "Vary" := by decide
  unfold Planner.fileHeaders
  cases encoding with
  | none =>
    apply OrderedMap.get_ofList_eq_none
    simp only [List.forall_mem_cons, List.not_mem_nil, false_imp_iff, implies_true, and_true]
    decide
  | some enc =>
    dsimp only
    rw [OrderedMap.get_insert_ne _ _ vary, OrderedMap.get_insert_self]

theorem notModified_encoding (file : File) (encoding : Option Str) :
    (p.notModified file encoding).headers.get (str "Content-Encoding") = none := by
  have vary : str "Content-Encoding" ≠ str "Vary" := by decide
  have plain : (OrderedMap.ofList
      [(str "ETag", (p.validators file).1.toHeaderValue),
        (str "Last-Modified", (p.validators file).2),
        (str "Cache-Control", p.config.effectiveCacheControl),
        (str "Content-Length", str "0")]).get (str "Content-Encoding") = none := by
    apply OrderedMap.get_ofList_eq_none
    simp only [List.forall_mem_cons, List.not_mem_nil, false_imp_iff, implies_true, and_true]
    decide
  unfold Planner.notModified
  dsimp only
  split_ifs
  · rw [OrderedMap.get_insert_ne _ _ vary]
    exact plain
  · exact plain

-- The header is left out of a 304 only.
theorem fileReply_encoding (file : File) (path : Str) (encoding : Option Str)
    (sample : Option Bytes) :
    (p.fileReply file path encoding sample).headers.get (str "Content-Encoding") =
      if p.askedRange file = .notApplicable ∧ p.unmodified file = true then none else encoding := by
  have range : str "Content-Encoding" ≠ str "Content-Range" := by decide
  have length : str "Content-Encoding" ≠ str "Content-Length" := by decide
  have type : str "Content-Encoding" ≠ str "Content-Type" := by decide
  have headers := fileHeaders_encoding (p := p) file path encoding sample
  rw [fileReply_eq]
  cases p.askedRange file with
  | satisfiable r =>
    dsimp only [Planner.partialReply]
    rw [OrderedMap.get_insert_ne _ _ length, OrderedMap.get_insert_ne _ _ range, headers]
    rfl
  | notSatisfiable =>
    dsimp only [Planner.refusedReply]
    rw [OrderedMap.get_insert_ne _ _ type, OrderedMap.get_insert_ne _ _ length,
      OrderedMap.get_insert_ne _ _ range, headers]
    rfl
  | notApplicable =>
    cases p.unmodified file with
    | true => exact notModified_encoding file encoding
    | false => exact headers

-- A reply with a header that only files give was made from a file.
theorem Answers.taken {past : Past} {reply : Reply} {name value : Str} (answers : Answers p past reply)
    (notCustom : NotCustom p.config name) (other : name ∉ generatedNames)
    (named : reply.headers.get name = some value) :
    ∃ choice file sample, reply = p.fileReply file choice.represented choice.encoding sample ∧
      ∀ enc, choice.encoding = some enc → Encodes p past choice file enc := by
  cases answers with
  | generated _ _ generated =>
    rcases generated.named name value named with known | custom
    · exact absurd known other
    · exact absurd custom notCustom.absent
  | errorPage _ file => exact absurd (errorReply_named file name value named) other
  | unlisted => exact absurd (listingReply_named _ name value named) other
  | listed => exact absurd (listingReply_named _ name value named) other
  | file before path index missing i choice file sample more turn regular taken =>
    refine ⟨choice, file, sample, rfl, ?_⟩
    intro enc encoding
    refine ⟨regular, encoding, before, more, path, index, missing, i, rfl, turn, ?_⟩
    cases taken with
    | plain other => exact .plain other
    | sniffed bytes identity => simp [identity] at encoding
    | unzipped bytes compressed magic => exact .unzipped bytes compressed magic

-- A reply that names an encoding was made from a file in it.
theorem Answers.encodes {past : Past} {reply : Reply} {enc : Str} (answers : Answers p past reply)
    (notCustom : NotCustom p.config (str "Content-Encoding"))
    (named : reply.headers.get (str "Content-Encoding") = some enc) :
    ∃ choice file, Encodes p past choice file enc := by
  obtain ⟨choice, file, sample, rfl, encodes⟩ := answers.taken notCustom (by decide) named
  rw [fileReply_encoding] at named
  split_ifs at named
  exact ⟨choice, file, encodes enc named⟩

def Carries (p : Planner) (past : Past) (body : Body) (enc : Str) : Prop :=
  ∃ choice file offset length, Encodes p past choice file enc ∧ Extension choice.path enc ∧
    body = .fileRegion file offset length

-- `Content-Encoding` names the encoding of the body, and nothing else.
def Truthful (p : Planner) (past : Past) (response : Response) : Prop :=
  ∀ enc, enc ∈ fieldValues response.headers (str "Content-Encoding") ↔
    Carries p past response.body enc

-- A range was refused that was asked of an encoded file.
def Spoiled (p : Planner) (past : Past) : Prop :=
  ∃ choice file enc, Encodes p past choice file enc ∧ p.askedRange file = .notSatisfiable

section

variable {past : Past} {choice : Choice} {file : File} {enc : Str} {response : Response}

theorem Encodes.answers (encodes : Encodes p past choice file enc) :
    Answers p past (p.fileReply file choice.represented (some enc) none) := by
  obtain ⟨before, more, path, index, missing, i, rfl, turn, taken⟩ := encodes.taken
  have answers := Answers.file before path index missing i choice file none more turn encodes.regular
    taken
  rwa [encodes.encoding] at answers

theorem Encodes.values (encodes : Encodes p past choice file enc)
    (notCustom : NotCustom p.config (str "Content-Encoding")) :
    fieldValues (p.sent (p.fileReply file choice.represented (some enc) none)).headers
      (str "Content-Encoding") =
      if p.askedRange file = .notApplicable ∧ p.unmodified file = true then [] else [enc] := by
  rw [fieldValues_sent encodes.answers notCustom (by decide) (by decide), fileReply_encoding]
  split_ifs <;> rfl

-- The header decides which encoding a run ends in.
theorem Encodes.unique (encodes : Encodes p past choice file enc)
    (notCustom : NotCustom p.config (str "Content-Encoding"))
    (run : Run (start p.config p.request p.mime) past (.done (.responds response))) {value : Str}
    (member : value ∈ fieldValues response.headers (str "Content-Encoding")) : value = enc := by
  rw [encodes.sent run, encodes.values notCustom] at member
  split_ifs at member
  · cases member
  · exact List.mem_singleton.mp member

theorem Encodes.truthful_region (encodes : Encodes p past choice file enc)
    (notCustom : NotCustom p.config (str "Content-Encoding"))
    (run : Run (start p.config p.request p.mime) past (.done (.responds response)))
    (named : enc ∈ fieldValues response.headers (str "Content-Encoding"))
    (region : ∃ offset length, response.body = .fileRegion file offset length) :
    Truthful p past response := by
  intro value
  constructor
  · intro member
    obtain rfl := encodes.unique notCustom run member
    obtain ⟨offset, length, body⟩ := region
    exact ⟨choice, file, offset, length, encodes, encodes.extension, body⟩
  · rintro ⟨_, _, _, _, again, _, _⟩
    obtain rfl := again.unique notCustom run named
    exact named

theorem Encodes.truthful (encodes : Encodes p past choice file enc)
    (notCustom : NotCustom p.config (str "Content-Encoding")) (get : p.request.meth ≠ .head)
    (run : Run (start p.config p.request p.mime) past (.done (.responds response))) :
    Truthful p past response ↔ p.askedRange file ≠ .notSatisfiable := by
  have values := encodes.values notCustom
  have sent := encodes.sent run
  have body : response.body = (p.fileReply file choice.represented (some enc) none).body := by
    rw [sent]
    exact if_neg get
  rw [← sent] at values
  rw [fileReply_eq] at body
  cases asked : p.askedRange file with
  | satisfiable r =>
    simp only [asked, reduceCtorEq, false_and, if_false] at values
    simp only [asked] at body
    have truthful := encodes.truthful_region notCustom run (values ▸ List.mem_singleton_self enc)
      ⟨r.start, r.end - r.start + 1, body⟩
    simp [truthful]
  | notSatisfiable =>
    simp only [asked, reduceCtorEq, false_and, if_false] at values
    simp only [asked] at body
    constructor
    · intro truthful
      obtain ⟨_, _, _, _, _, _, region⟩ := (truthful enc).mp (values ▸ List.mem_singleton_self enc)
      rw [body] at region
      cases region
    · exact fun applicable => absurd rfl applicable
  | notApplicable =>
    cases unmodified : p.unmodified file with
    | true =>
      simp only [asked, unmodified, and_self, if_true] at values
      simp only [asked, unmodified, if_true] at body
      have truthful : Truthful p past response := by
        intro value
        rw [values]
        constructor
        · intro member
          cases member
        · rintro ⟨_, _, _, _, _, _, region⟩
          rw [body] at region
          cases region
      simp [truthful]
    | false =>
      simp only [asked, unmodified, Bool.false_eq_true, and_false, if_false] at values
      simp only [asked, unmodified, Bool.false_eq_true, if_false] at body
      have truthful := encodes.truthful_region notCustom run (values ▸ List.mem_singleton_self enc)
        ⟨0, file.size, body⟩
      simp [truthful]

end

end

/-- The header is right unless a range was refused of an encoded file. -/
theorem run_encoding {config : Config} {request : Request} {mime : MimeRegistry} {past : Past}
    {response : Response} (get : request.meth = .get)
    (notCustom : NotCustom config (str "Content-Encoding"))
    (run : Run (start config request mime) past (.done (.responds response))) :
    Truthful ⟨config, request, mime⟩ past response ↔ ¬Spoiled ⟨config, request, mime⟩ past := by
  have other : request.meth ≠ .head := by simp [get]
  constructor
  · rintro truthful ⟨choice, file, enc, encodes, refused⟩
    exact (encodes.truthful notCustom other run).mp truthful refused
  · intro unspoiled
    by_cases encoded : ∃ choice file enc, Encodes ⟨config, request, mime⟩ past choice file enc
    · obtain ⟨choice, file, enc, encodes⟩ := encoded
      apply (encodes.truthful notCustom other run).mpr
      exact fun refused => unspoiled ⟨choice, file, enc, encodes, refused⟩
    · obtain ⟨reply, answers, rfl⟩ := run_responds run
      intro enc
      rw [fieldValues_sent answers notCustom (by decide) (by decide), Option.mem_toList]
      constructor
      · intro named
        obtain ⟨choice, file, encodes⟩ := answers.encodes notCustom named
        exact absurd ⟨choice, file, enc, encodes⟩ encoded
      · rintro ⟨choice, file, _, _, encodes, _⟩
        exact absurd ⟨choice, file, enc, encodes⟩ encoded

def packedRequest (range : Str) : Request where
  meth := .get
  target := str "/a.bin"
  headers := OrderedMap.ofList [(str "accept-encoding", str "gzip"), (str "range", range)]

def packed : File := ⟨8, 1, 6, 0⟩

def packedPast : Past :=
  [opened (str "/site/a.bin") none, opened (str "/site/a.bin.gz") (some packed),
    examined packed [0x1F, 0x8B]]

def packedHeaders (type length range : Str) : Headers := OrderedMap.ofList
  [(str "Content-Type", type), (str "Cache-Control", str "max-age=3600"),
    (str "Accept-Ranges", str "bytes"), (str "ETag", str "W/\"6-0\""),
    (str "Last-Modified", str "Thu, 01 Jan 1970 00:00:00 GMT"), (str "Content-Length", length),
    (str "Content-Encoding", str "gzip"), (str "Vary", str "Accept-Encoding"),
    (str "Content-Range", range)]

def packedPart : Response where
  status := 206
  headers := packedHeaders (str "application/octet-stream") (str "4") (str "bytes 0-3/6")
  body := .fileRegion packed 0 4

theorem run_encoding_packed :
    Truthful ⟨clipConfig, packedRequest (str "bytes=0-3"), .new⟩ packedPast packedPart ↔
      ¬Spoiled ⟨clipConfig, packedRequest (str "bytes=0-3"), .new⟩ packedPast := by
  have run : Run (start clipConfig (packedRequest (str "bytes=0-3")) .new) packedPast
      (.done (.responds packedPart)) := run_of_result (by decide +kernel)
  exact run_encoding rfl (clipConfig_notCustom _) run

def packedRefusal : Response where
  status := 416
  headers := packedHeaders (str "text/plain; charset=UTF-8") (str "31") (str "bytes */6")
  body := .bytes refusedRange

-- The text of a 416 goes out as gzip.
theorem refusal_encoded : ¬∀ (config : Config) (request : Request) (mime : MimeRegistry)
    (past : Past) (response : Response), request.meth = .get →
    NotCustom config (str "Content-Encoding") →
    Run (start config request mime) past (.done (.responds response)) →
    Truthful ⟨config, request, mime⟩ past response := by
  intro always
  have run : Run (start clipConfig (packedRequest (str "bytes=9-")) .new) packedPast
      (.done (.responds packedRefusal)) := run_of_result (by decide +kernel)
  have truthful := always _ _ _ _ _ rfl (clipConfig_notCustom _) run
  have named : gzip ∈ fieldValues packedRefusal.headers (str "Content-Encoding") := by decide +kernel
  obtain ⟨_, _, _, _, _, _, region⟩ := (truthful gzip).mp named
  cases region

end HttpServer.StaticPlan

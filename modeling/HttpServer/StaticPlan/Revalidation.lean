import HttpServer.StaticPlan.Regions
import HttpServer.StaticPlan.Replies
import HttpServer.Core.Validators

set_option autoImplicit false

namespace HttpServer.StaticPlan

open Unicode Text HttpServer.Core Dialogue

inductive Picks (p : Planner) : Past → Choice → File → Prop
  | taken (before : Past) (path : Str) (index : Bool) (missing : Step) (i : Nat) (choice : Choice)
      (file : File) (sample : Option Bytes) (more : Past)
      (turn : Turn p before path index missing i choice) (regular : file.kind = 1)
      (taken : Taken choice file sample more) : Picks p (before ++ more) choice file

section

variable {p : Planner} {file : File} {path : Str} {encoding : Option Str} {sent : Response}

theorem fileResponse_done {sample : Option Bytes}
    (ended : p.fileResponse file path encoding sample = .done (.responds sent)) :
    sent = p.sent (p.fileReply file path encoding sample) := by
  cases ended
  rfl

theorem serve_done (ended : p.serve file path encoding = .done (.responds sent)) :
    sent = p.sent (p.fileReply file path encoding none) := by
  unfold Planner.serve at ended
  dsimp only at ended
  split_ifs at ended
  · cases ended
  · exact fileResponse_done ended

theorem serve_sampled {bytes : Bytes} (run : Run (p.serve file path encoding)
    [sampled file bytes] (.done (.responds sent))) :
    sent = p.sent (p.fileReply file path encoding (some bytes)) := by
  unfold Planner.serve at run
  dsimp only at run
  split_ifs at run
  · have next := @run_reads file 1024
      (fun bytes => p.fileResponse file path encoding (some bytes)) _ _ bytes (.here _)
    exact fileResponse_done (next.unique run)
  · cases run

theorem Picks.response {past : Past} {choice : Choice} (picks : Picks p past choice file)
    (run : Run (start p.config p.request p.mime) past (.done (.responds sent))) :
    ∃ sample, sent =
      p.sent (p.fileReply file choice.represented choice.encoding sample) := by
  cases picks with
  | taken before path index missing i _ _ sample more turn regular taken =>
    have left := turn.run.rest run
    cases taken with
    | plain other =>
      have served : Run (p.chooseFrom missing
          (choice :: (p.representations path index).drop (i + 1)) i)
          [opened choice.path (some file)] (p.serve file choice.represented choice.encoding) := by
        refine run_opens (some file) ?_
        simp only [regular, other, if_true, if_false]
        exact .here _
      exact ⟨none, serve_done (served.unique left)⟩
    | sniffed bytes identity =>
      have other : choice.encoding ≠ some gzip := by simp [identity]
      have served : Run (p.chooseFrom missing
          (choice :: (p.representations path index).drop (i + 1)) i)
          [opened choice.path (some file)] (p.serve file choice.represented choice.encoding) := by
        refine run_opens (some file) ?_
        simp only [regular, other, if_true, if_false]
        exact .here _
      exact ⟨some bytes, serve_sampled (served.rest left)⟩
    | unzipped bytes compressed magic =>
      have served : Run (p.chooseFrom missing
          (choice :: (p.representations path index).drop (i + 1)) i)
          [opened choice.path (some file), examined file bytes]
          (p.serve file choice.represented choice.encoding) := by
        refine run_opens (some file) ?_
        simp only [regular, compressed, if_true]
        refine run_reads bytes ?_
        simp only [magic, if_true]
        exact .here _
      exact ⟨none, serve_done (served.unique left)⟩

def validatorNames : List Str := ["ETag", "Last-Modified", "Cache-Control", "Vary"].map str

structure Stored (p : Planner) (file : File) (encoding : Option Str) (headers : Headers) : Prop where
  tag : headers.get (str "ETag") = some (p.validators file).1.toHeaderValue
  date : headers.get (str "Last-Modified") = some (p.validators file).2
  control : headers.get (str "Cache-Control") = some p.config.effectiveCacheControl
  vary : headers.get (str "Vary") = encoding.map fun _ => str "Accept-Encoding"

theorem Stored.insert {headers : Headers} {name value : Str}
    (stored : Stored p file encoding headers) (other : name ∉ validatorNames) :
    Stored p file encoding (headers.insert name value) := by
  have ne {known : Str} (member : known ∈ validatorNames) : known ≠ name :=
    fun same => other (same ▸ member)
  constructor
  · rw [OrderedMap.get_insert_ne _ _ (ne (by decide)), stored.tag]
  · rw [OrderedMap.get_insert_ne _ _ (ne (by decide)), stored.date]
  · rw [OrderedMap.get_insert_ne _ _ (ne (by decide)), stored.control]
  · rw [OrderedMap.get_insert_ne _ _ (ne (by decide)), stored.vary]

theorem Stored.vary_insert {headers : Headers} {enc : Str} (stored : Stored p file none headers) :
    Stored p file (some enc) (headers.insert (str "Vary") (str "Accept-Encoding")) := by
  have ne {known : Str} (member : known ∈ [str "ETag", str "Last-Modified", str "Cache-Control"]) :
      known ≠ str "Vary" := by
    rintro rfl
    exact absurd member (by decide)
  constructor
  · rw [OrderedMap.get_insert_ne _ _ (ne (by decide)), stored.tag]
  · rw [OrderedMap.get_insert_ne _ _ (ne (by decide)), stored.date]
  · rw [OrderedMap.get_insert_ne _ _ (ne (by decide)), stored.control]
  · exact OrderedMap.get_insert_self _ _ _

theorem stored_ofList {entries : List (Str × Str)} (distinct : (entries.map Prod.fst).Nodup)
    (tag : (str "ETag", (p.validators file).1.toHeaderValue) ∈ entries)
    (date : (str "Last-Modified", (p.validators file).2) ∈ entries)
    (control : (str "Cache-Control", p.config.effectiveCacheControl) ∈ entries)
    (vary : str "Vary" ∉ entries.map Prod.fst) :
    Stored p file none (OrderedMap.ofList entries) where
  tag := get_insertAll_mem ∅ distinct tag
  date := get_insertAll_mem ∅ distinct date
  control := get_insertAll_mem ∅ distinct control
  vary := get_insertAll ∅ entries vary

theorem fileHeaders_stored (sample : Option Bytes) :
    Stored p file encoding (p.fileHeaders file path encoding sample) := by
  have plain : Stored p file none (p.fileHeaders file path none sample) := by
    apply stored_ofList
    · simp only [List.map_cons, List.map_nil]
      decide
    · simp [Planner.validators]
    · simp [Planner.validators]
    · simp
    · simp only [List.map_cons, List.map_nil]
      decide
  cases encoding with
  | none => exact plain
  | some enc => exact (plain.insert (by decide)).vary_insert

theorem notModified_stored : Stored p file encoding (p.notModified file encoding).headers := by
  have plain : Stored p file none (p.notModified file none).headers := by
    apply stored_ofList
    · simp only [List.map_cons, List.map_nil]
      decide
    · simp [Planner.validators]
    · simp [Planner.validators]
    · simp
    · simp only [List.map_cons, List.map_nil]
      decide
  cases encoding with
  | none => exact plain
  | some enc => exact plain.vary_insert

end

/-- A request whose run answers with a file, the host's sizes not being negative. -/
structure Visit (config : Config) (mime : MimeRegistry) where
  request : Request
  past : Past
  response : Response
  choice : Choice
  file : File
  run : Run (start config request mime) past (.done (.responds response))
  picks : Picks ⟨config, request, mime⟩ past choice file
  size : 0 ≤ file.size.toInt

/-- Weak tags are compared if they are made, and the stored headers are the planner's own. -/
structure Revalidable (config : Config) : Prop where
  compares : config.weakCompare = true ∨ config.weakEtags = false
  own : ∀ name ∈ validatorNames, name ∉ config.customHeaders.keys

section

variable {config : Config} {mime : MimeRegistry}

abbrev Visit.planner (v : Visit config mime) : Planner := ⟨config, v.request, mime⟩

-- The request has one validator of the answer, or both, and no other.
def Visit.Conditional (v : Visit config mime) (answer : Response) : Prop :=
  let tag := v.planner.header (str "if-none-match")
  let date := v.planner.header (str "if-modified-since")
  tag = answer.headers.get (str "ETag") ∧ date = none ∨
    tag = none ∧ date = answer.headers.get (str "Last-Modified") ∨
    tag = answer.headers.get (str "ETag") ∧ date = answer.headers.get (str "Last-Modified")

-- The tag stands neither for every file nor for the one that is served; where tags are compared
-- strongly, a weak one stands for none.
def Visit.Foreign (v : Visit config mime) (tag : Str) : Prop :=
  tag ≠ str "*" ∧ (compared tag = (v.planner.validators v.file).1.tag →
    config.weakCompare = false ∧ hasPrefix tag (str "W/") = true)

-- The request carries the tag of an answer, alone or among tags that are foreign to it.
def Visit.Carries (v : Visit config mime) (answer : Response) : Prop :=
  ∃ value, v.planner.header (str "if-none-match") = some value ∧
    (answer.headers.get (str "ETag") = some value ∨
      ∀ tag ∈ tagList value, answer.headers.get (str "ETag") = some tag ∨ v.Foreign tag)

structure Visit.SameFile (v w : Visit config mime) : Prop where
  size : v.file.size = w.file.size
  mtime : v.file.mtime = w.file.mtime

theorem Stored.sent {v : Visit config mime} {reply : Reply} {encoding : Option Str}
    (stored : Stored v.planner v.file encoding reply.headers) (revalidable : Revalidable config) :
    Stored v.planner v.file encoding (v.planner.sent reply).headers := by
  have other : ∀ name ∈ validatorNames, name ∉ securityNames := by decide
  have kept {name : Str} (known : name ∈ validatorNames) :
      (v.planner.sent reply).headers.get name = reply.headers.get name :=
    get_applySecurityHeaders (other name known) (revalidable.own name known) _
  constructor
  · rw [kept (by decide), stored.tag]
  · rw [kept (by decide), stored.date]
  · rw [kept (by decide), stored.control]
  · rw [kept (by decide), stored.vary]

-- A whole answer has the headers of the file, and was not found unmodified.
theorem Visit.whole (v : Visit config mime) (ok : v.response.status = 200) :
    ∃ sample, v.response = v.planner.sent
      ⟨200, v.planner.fileHeaders v.file v.choice.represented v.choice.encoding sample,
        .fileRegion v.file 0 v.file.size⟩ := by
  obtain ⟨sample, sent⟩ := v.picks.response v.run
  refine ⟨sample, ?_⟩
  rw [sent] at ok ⊢
  rw [fileReply_eq] at ok ⊢
  cases asked : v.planner.askedRange v.file with
  | satisfiable r => simp [asked, Planner.partialReply, Planner.sent] at ok
  | notSatisfiable => simp [asked, Planner.refusedReply, Planner.sent] at ok
  | notApplicable =>
    simp only [asked] at ok ⊢
    split_ifs at ok with same
    · simp [Planner.notModified, Planner.sent] at ok
    · rw [if_neg same]

theorem Visit.stored (v : Visit config mime) (revalidable : Revalidable config)
    (ok : v.response.status = 200) :
    Stored v.planner v.file v.choice.encoding v.response.headers := by
  obtain ⟨sample, sent⟩ := v.whole ok
  rw [sent]
  exact Stored.sent (fileHeaders_stored sample) revalidable

-- The stored headers tell no more than the metadata and the encoding.
theorem Stored.agree {v w : Visit config mime} {encoding : Option Str} {first second : Headers}
    (left : Stored v.planner v.file encoding first) (right : Stored w.planner w.file encoding second)
    (same : v.SameFile w) : ∀ name ∈ validatorNames, second.get name = first.get name := by
  have validators : w.planner.validators w.file = v.planner.validators v.file := by
    simp only [Planner.validators, same.size, same.mtime]
  intro name known
  simp only [validatorNames, List.map_cons, List.map_nil, List.mem_cons, List.not_mem_nil,
    or_false] at known
  rcases known with rfl | rfl | rfl | rfl
  · rw [left.tag, right.tag, validators]
  · rw [left.date, right.date, validators]
  · rw [left.control, right.control]
  · rw [left.vary, right.vary]

-- Both conditionals let their own validators pass.
theorem shouldReturn304_own {size mtime : Int64} {weak compares : Bool} {tag date : Option Str}
    (weakly : compares = true ∨ weak = false) (datable : Datable mtime)
    (some_ : tag ≠ none ∨ date ≠ none)
    (tags : tag = none ∨ tag = some (EntityTag.fromMetadata size mtime weak).toHeaderValue)
    (dates : date = none ∨ date = some (formatHttpDate mtime)) :
    shouldReturn304 tag date mtime (EntityTag.fromMetadata size mtime weak) compares = true := by
  have isWeak : (EntityTag.fromMetadata size mtime weak).isWeak = weak := rfl
  have again : ifNoneMatchMatches (EntityTag.fromMetadata size mtime weak).toHeaderValue
      (EntityTag.fromMetadata size mtime weak) compares = true := by
    rw [ifNoneMatch_header, isWeak]
    rcases weakly with rfl | rfl <;> simp
  have read := parseHttpDate_formatHttpDate datable
  have fresh : ¬mtime < mtime := by
    rw [Int64.lt_iff_toInt_lt]
    omega
  unfold shouldReturn304
  rcases tags with rfl | rfl <;> rcases dates with rfl | rfl
  · simp at some_
  · simp [read, fresh]
  · simp [again]
  · simp [again, read, fresh]

-- Nothing but an unmodified file is answered with 304.
theorem Visit.unmodified (v : Visit config mime) (status : v.response.status = 304) :
    v.planner.unmodified v.file = true := by
  obtain ⟨sample, sent⟩ := v.picks.response v.run
  rw [sent, fileReply_eq] at status
  cases asked : v.planner.askedRange v.file with
  | satisfiable r => simp [asked, Planner.partialReply, Planner.sent] at status
  | notSatisfiable => simp [asked, Planner.refusedReply, Planner.sent] at status
  | notApplicable =>
    simp only [asked] at status
    split_ifs at status with same
    · exact same
    · simp [Planner.sent] at status

theorem Visit.revalidated {v w : Visit config mime} (revalidable : Revalidable config)
    (ok : v.response.status = 200) (same : v.SameFile w) (datable : Datable v.file.mtime)
    (whole : w.planner.header (str "range") = none)
    (conditional : w.Conditional v.response) :
    w.response = w.planner.sent (w.planner.notModified w.file w.choice.encoding) := by
  have stored := v.stored revalidable ok
  obtain ⟨sample, sent⟩ := w.picks.response w.run
  have asked : w.planner.askedRange w.file = .notApplicable := by
    rw [Planner.askedRange, whole]
    split_ifs <;> rfl
  have fresh : w.planner.unmodified w.file = true := by
    rw [Planner.unmodified]
    have tags := stored.tag
    have dates := stored.date
    simp only [Planner.validators, same.size, same.mtime] at tags dates ⊢
    rw [same.mtime] at datable
    apply shouldReturn304_own revalidable.compares datable
    · rcases conditional with ⟨tag, -⟩ | ⟨-, date⟩ | ⟨tag, -⟩
      · exact Or.inl (by rw [tag, tags]; simp)
      · exact Or.inr (by rw [date, dates]; simp)
      · exact Or.inl (by rw [tag, tags]; simp)
    · rcases conditional with ⟨tag, -⟩ | ⟨tag, -⟩ | ⟨tag, -⟩
      · exact Or.inr (tag.trans tags)
      · exact Or.inl tag
      · exact Or.inr (tag.trans tags)
    · rcases conditional with ⟨-, date⟩ | ⟨-, date⟩ | ⟨-, date⟩
      · exact Or.inl date
      · exact Or.inr (date.trans dates)
      · exact Or.inr (date.trans dates)
  rw [sent, fileReply_eq, asked]
  simp only [fresh, if_true]

end

/-- A validator of an answer is enough for 304 while the file is the same, and not when it is
another. -/
theorem revalidation (config : Config) (mime : MimeRegistry) (revalidable : Revalidable config) :
    (∀ t, Datable t → parseHttpDate (formatHttpDate t) = some t) ∧
      ∀ v w : Visit config mime, v.response.status = 200 →
        (v.SameFile w → v.choice = w.choice → Datable v.file.mtime → w.request.meth = .get →
          w.planner.header (str "range") = none → w.Conditional v.response →
          w.response.status = 304 ∧ w.response.body = .empty ∧
            ∀ name ∈ validatorNames, w.response.headers.get name = v.response.headers.get name) ∧
        (¬v.SameFile w → w.Carries v.response → w.response.status ≠ 304) := by
  refine ⟨fun t => parseHttpDate_formatHttpDate, fun v w ok => ⟨?_, ?_⟩⟩
  · intro same choice datable _ whole conditional
    have stored := v.stored revalidable ok
    have sent := Visit.revalidated revalidable ok same datable whole conditional
    have again : Stored w.planner w.file v.choice.encoding w.response.headers := by
      rw [sent, choice]
      exact Stored.sent notModified_stored revalidable
    refine ⟨by rw [sent]; rfl, ?_, stored.agree again same⟩
    rw [sent]
    exact ite_self _
  · rintro other ⟨value, carried, tags⟩ status
    have unmodified := w.unmodified status
    have tag := (v.stored revalidable ok).tag
    have stale (fits : ifNoneMatchMatches (v.planner.validators v.file).1.toHeaderValue
        (w.planner.validators w.file).1 config.weakCompare = true) : False := by
      simp only [Planner.validators, ifNoneMatch_header, Bool.and_eq_true, beq_iff_eq] at fits
      have metadata := (fromMetadata_tag v.size w.size).mp fits.2
      exact other ⟨metadata.1, metadata.2⟩
    rw [Planner.unmodified, carried] at unmodified
    unfold shouldReturn304 at unmodified
    simp only [Option.isNone_some, Bool.false_and, Bool.false_eq_true, if_false,
      Bool.and_eq_true] at unmodified
    rw [tag] at tags
    rcases tags with alone | among
    · rw [Option.some.inj alone] at stale
      exact stale unmodified.2
    -- The tag that matched is the old one or a foreign one.
    · obtain ⟨found, member, fits⟩ := ifNoneMatch_iff.mp unmodified.2
      rcases among found member with old | ⟨noStar, foreign⟩
      · refine stale (ifNoneMatch_iff.mpr ⟨found, ?_, fits⟩)
        have alone : tagList (v.planner.validators v.file).1.toHeaderValue =
            [(v.planner.validators v.file).1.toHeaderValue] := (tagList_header _ _ _ rfl).1
        rw [alone, ← Option.some.inj old]
        exact List.mem_singleton_self _
      · rcases fits with star | ⟨same, weak | ⟨unmarked, -⟩⟩
        · exact noStar star
        · exact absurd weak (ne_true_of_eq_false (foreign same).1)
        · exact absurd (foreign same).2 (ne_true_of_eq_false unmarked)

def clipDirect : Choice := ⟨str "/site/a.bin", str "/site/a.bin", none⟩

def clipGet (headers : List (Str × Str)) : Request where
  meth := .get
  target := str "/a.bin"
  headers := OrderedMap.ofList headers

theorem clip_picks (headers : List (Str × Str)) {file : File} (regular : file.kind = 1)
    (representations :
      (Planner.representations ⟨clipConfig, clipGet headers, .new⟩ (str "/site/a.bin") false)[0]? =
        some clipDirect)
    (policy : evaluateSecurityPolicies clipConfig (clipGet headers) = some .proceed) :
    Picks ⟨clipConfig, clipGet headers, .new⟩
      [opened (str "/site/a.bin") none, opened (str "/site/a.bin") (some file)] clipDirect file := by
  have robots : (clipConfig.robots &&
      Planner.rawPath ⟨clipConfig, clipGet [], .new⟩ == str "/robots.txt") = false := by decide +kernel
  have resolved : resolvePath clipConfig.root clipConfig.baseUrl (str "/a.bin") =
      .ok (str "/site/a.bin") := by decide +kernel
  have resolves : Planner.Resolves ⟨clipConfig, clipGet headers, .new⟩ (str "/site/a.bin") :=
    ⟨policy, Or.inl rfl, robots, resolved⟩
  exact .taken [opened (str "/site/a.bin") none] (str "/site/a.bin") false _ 0 clipDirect file none
    [opened (str "/site/a.bin") (some file)]
    ⟨representations, _, [], rfl, .direct _ none resolves (by simp [isDirectory]), .start 0⟩
    regular (.plain (by decide))

def clipTag : Str := str "W/\"11-0\""

def clipDate : Str := str "Thu, 01 Jan 1970 00:00:00 GMT"

def clipWhole : Response where
  status := 200
  headers := OrderedMap.ofList
    [(str "Content-Type", str "application/octet-stream"),
      (str "Cache-Control", str "max-age=3600"), (str "Accept-Ranges", str "bytes"),
      (str "ETag", clipTag), (str "Last-Modified", clipDate), (str "Content-Length", str "11")]
  body := .fileRegion clip 0 11

def clipUnmodified : Response where
  status := 304
  headers := OrderedMap.ofList
    [(str "ETag", clipTag), (str "Last-Modified", clipDate),
      (str "Cache-Control", str "max-age=3600"), (str "Content-Length", str "0")]
  body := .empty

def clipVisit : Visit clipConfig .new where
  request := clipGet []
  past := clipPast
  response := clipWhole
  choice := clipDirect
  file := clip
  run := run_of_result (by decide +kernel)
  picks := clip_picks [] (by decide) (by decide +kernel) rfl
  size := by decide

def clipAgain : Visit clipConfig .new where
  request := clipGet [(str "If-None-Match", clipTag)]
  past := clipPast
  response := clipUnmodified
  choice := clipDirect
  file := clip
  run := run_of_result (by decide +kernel)
  picks := clip_picks [(str "If-None-Match", clipTag)] (by decide) (by decide +kernel) rfl
  size := by decide

-- The file has grown by a byte, and the request lists the tags of two versions before.
def grownVisit : Visit clipConfig .new where
  request := clipGet [(str "If-None-Match", str "\"10-0\", W/\"11-0\"")]
  past := [opened (str "/site/a.bin") none, opened (str "/site/a.bin") (some ⟨7, 1, 12, 0⟩)]
  response := {
    status := 200
    headers := (clipWhole.headers.insert (str "ETag") (str "W/\"12-0\"")).insert
      (str "Content-Length") (str "12")
    body := .fileRegion ⟨7, 1, 12, 0⟩ 0 12 }
  choice := clipDirect
  file := ⟨7, 1, 12, 0⟩
  run := run_of_result (by decide +kernel)
  picks := clip_picks _ (by decide) (by decide +kernel) rfl
  size := by decide

theorem revalidation_clip : (clipAgain.response.status = 304 ∧ clipAgain.response.body = .empty ∧
    ∀ name ∈ validatorNames,
      clipAgain.response.headers.get name = clipVisit.response.headers.get name) ∧
    grownVisit.response.status ≠ 304 := by
  have law := (revalidation clipConfig .new ⟨by decide, by decide +kernel⟩).2
  refine ⟨(law clipVisit clipAgain rfl).1 ⟨rfl, rfl⟩ rfl ⟨by decide, by decide⟩ rfl (by decide +kernel)
    (Or.inl ⟨by decide +kernel, by decide +kernel⟩), (law clipVisit grownVisit rfl).2 ?_ ?_⟩
  · exact fun same => absurd same.size (by decide)
  · exact ⟨str "\"10-0\", W/\"11-0\"", by decide +kernel, .inr (by unfold Visit.Foreign; decide +kernel)⟩

end HttpServer.StaticPlan

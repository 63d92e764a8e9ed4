import HttpServer.StaticPlan.Runs
import HttpServer.StaticPlan.Replies

set_option autoImplicit false

namespace HttpServer.StaticPlan

open Unicode Text HttpServer.Core Dialogue

def OneLine (s : Str) : Prop := unit '\r' ∉ s ∧ unit '\n' ∉ s

instance (s : Str) : Decidable (OneLine s) := inferInstanceAs (Decidable (_ ∧ _))

@[simp] theorem oneLine_append {s t : Str} : OneLine (s ++ t) ↔ OneLine s ∧ OneLine t := by
  simp only [OneLine, List.mem_append, not_or]
  tauto

theorem OneLine.subset {s t : Str} (oneLine : OneLine t) (subset : s ⊆ t) : OneLine s :=
  ⟨fun member => oneLine.1 (subset member), fun member => oneLine.2 (subset member)⟩

theorem oneLine_ofNat (n : Nat) : OneLine (ofNat n) :=
  ⟨fun member => absurd (mem_ofNat member).1 (by decide),
    fun member => absurd (mem_ofNat member).1 (by decide)⟩

theorem oneLine_ofInt (n : Int) : OneLine (ofInt n) := by
  unfold ofInt
  split_ifs
  · exact (oneLine_append (s := [unit '-'])).mpr ⟨by decide, oneLine_ofNat _⟩
  · exact oneLine_ofNat _

theorem oneLine_getD {texts : List Str} (all : ∀ text ∈ texts, OneLine text) (i : Nat) :
    OneLine (texts.getD i []) := by
  rw [List.getD_eq_getElem?_getD]
  cases found : texts[i]? with
  | none => exact ⟨by simp, by simp⟩
  | some text => exact all text (List.mem_of_getElem? found)

theorem oneLine_pad2 (n : Int32) : OneLine (pad2 n) := by
  unfold pad2
  split_ifs
  · exact oneLine_append.mpr ⟨by decide, oneLine_ofInt _⟩
  · exact oneLine_ofInt _

theorem oneLine_formatHttpDate (epochSec : Int64) : OneLine (formatHttpDate epochSec) := by
  have weekday (i : Nat) : OneLine (wkdays.getD i []) := oneLine_getD (by decide) i
  have month (i : Nat) : OneLine (months.getD i []) := oneLine_getD (by decide) i
  have literals : OneLine (str ", ") ∧ OneLine (str " ") ∧ OneLine (str ":") ∧
      OneLine (str " GMT") := by decide
  simp only [formatHttpDate, oneLine_append, weekday, month, literals, oneLine_pad2,
    oneLine_ofInt, and_self]

theorem oneLine_toHeaderValue (size mtimeSec : Int64) (weak : Bool) :
    OneLine (EntityTag.fromMetadata size mtimeSec weak).toHeaderValue := by
  have tag : OneLine (EntityTag.fromMetadata size mtimeSec weak).tag := by
    have literals : OneLine (str "\"") ∧ OneLine (str "-") := by decide
    simp only [EntityTag.fromMetadata, oneLine_append, oneLine_ofInt, literals, and_self]
  unfold EntityTag.toHeaderValue
  split_ifs
  · exact oneLine_append.mpr ⟨by decide, tag⟩
  · exact tag

theorem oneLine_formatContentRange (start last size : Int64) :
    OneLine (formatContentRange start last size) := by
  have literals : OneLine (str "bytes ") ∧ OneLine (str "-") ∧ OneLine (str "/") := by decide
  simp only [formatContentRange, oneLine_append, oneLine_ofInt, literals, and_self]

theorem oneLine_formatContentRangeUnsatisfiable (size : Int64) :
    OneLine (formatContentRangeUnsatisfiable size) := by
  simp only [formatContentRangeUnsatisfiable, oneLine_append]
  exact ⟨by decide, oneLine_ofInt _⟩

theorem oneLine_formatDirRedirect {rawPath : Str} {query : Option Str} (path : OneLine rawPath)
    (rest : ∀ q, query = some q → OneLine q) : OneLine (formatDirRedirect rawPath query) := by
  have slash : OneLine (if hasSuffix rawPath (str "/") then rawPath else rawPath ++ str "/") := by
    split_ifs
    · exact path
    · exact oneLine_append.mpr ⟨path, by decide⟩
  unfold formatDirRedirect
  cases query with
  | none => exact slash
  | some q =>
    dsimp only
    by_cases some : 0 < q.length
    · rw [if_pos some]
      exact oneLine_append.mpr ⟨oneLine_append.mpr ⟨slash, by decide⟩, rest q rfl⟩
    · rw [if_neg some]
      exact slash

theorem customHeaders_oneLine {entries : List (Str × Str)}
    (checked : validateCustomHeaders entries = .ok ()) :
    ∀ entry ∈ entries, OneLine entry.1 ∧ OneLine entry.2 := by
  have clean {s : Str} (absent : crlfIn s = false) : OneLine s := by
    simp only [crlfIn, Bool.or_eq_false_iff] at absent
    have cr := mt contains_single.mpr (Bool.not_eq_true _ ▸ absent.1)
    have lf := mt contains_single.mpr (Bool.not_eq_true _ ▸ absent.2)
    exact ⟨cr, lf⟩
  induction entries with
  | nil => simp
  | cons entry rest ih =>
    simp only [validateCustomHeaders, StateRun.except_ite_ok, StateRun.except_throw_ok, and_false,
      false_or, Bool.not_eq_true, Bool.or_eq_false_iff] at checked
    obtain ⟨⟨name, value⟩, rest⟩ := checked
    simp only [List.mem_cons, forall_eq_or_imp]
    exact ⟨⟨clean name, clean value⟩, ih rest⟩

def Covered (c : Config) (name : Str) : Prop := name ∈ c.customHeaders.entries.map Prod.fst

-- One line, or replaced by a custom header before the response is sent.
def Kept (c : Config) (name value : Str) : Prop :=
  Covered c name ∨ OneLine name ∧ OneLine value

structure SafePolicies (c : Config) : Prop where
  cors : c.cors = true → ∀ extra, c.corsHeaders = some extra →
    Covered c (str "Access-Control-Allow-Headers") ∨ OneLine extra
  coop : c.coop = true → ∀ policy, c.coopHeader = some policy →
    Covered c (str "Cross-Origin-Opener-Policy") ∨ OneLine policy

section

variable {c : Config} {headers : Headers}

theorem corsHeaders_kept (safe : SafePolicies c) (kept : headers.Each (Kept c)) (meth : Method) :
    (corsHeaders c meth headers).Each (Kept c) := by
  unfold corsHeaders
  by_cases enabled : c.cors = true
  · rw [if_pos enabled]
    have finish {value : Str} (allowed : Kept c (str "Access-Control-Allow-Headers") value) :
        OrderedMap.Each (if meth = .other (str "OPTIONS") then
          ((headers.insert (str "Access-Control-Allow-Origin") (str "*")).insert
            (str "Access-Control-Allow-Headers") value).insert
              (str "Access-Control-Allow-Methods") (str "GET, HEAD, OPTIONS")
          else (headers.insert (str "Access-Control-Allow-Origin") (str "*")).insert
            (str "Access-Control-Allow-Headers") value) (Kept c) := by
      have both := (kept.insert (Or.inr (by decide) : Kept c (str "Access-Control-Allow-Origin")
        (str "*"))).insert allowed
      split_ifs
      · exact both.insert (Or.inr (by decide))
      · exact both
    cases set : c.corsHeaders with
    | none => exact finish (Or.inr (by decide))
    | some extra =>
      apply finish
      apply (safe.cors enabled extra set).imp_right
      intro oneLine
      exact ⟨by decide, oneLine_append.mpr ⟨by decide, oneLine⟩⟩
  · rw [if_neg enabled]
    exact kept

theorem coopHeaders_kept (safe : SafePolicies c) (kept : headers.Each (Kept c)) :
    (coopHeaders c headers).Each (Kept c) := by
  unfold coopHeaders
  by_cases enabled : c.coop = true
  · rw [if_pos enabled]
    have policy : Kept c (str "Cross-Origin-Opener-Policy")
        (c.coopHeader.getD (str "same-origin")) := by
      cases set : c.coopHeader with
      | none => exact Or.inr (by decide)
      | some policy =>
        apply (safe.coop enabled policy set).imp_right
        intro oneLine
        exact ⟨by decide, oneLine⟩
    exact (kept.insert policy).insert (Or.inr (by decide))
  · rw [if_neg enabled]
    exact kept

theorem pnaHeaders_kept (kept : headers.Each (Kept c)) : (pnaHeaders c headers).Each (Kept c) := by
  unfold pnaHeaders
  split_ifs
  · exact kept.insert (Or.inr (by decide))
  · exact kept

theorem applySecurityHeaders_oneLine (valid : validateConfig c = .ok ()) (safe : SafePolicies c)
    (kept : headers.Each (Kept c)) (meth : Method) :
    (applySecurityHeaders headers c meth).Each fun name value => OneLine name ∧ OneLine value := by
  apply OrderedMap.Each.insertAll
  · exact pnaHeaders_kept (coopHeaders_kept safe (corsHeaders_kept safe kept meth))
  · exact customHeaders_oneLine (validateConfig_customHeaders valid)

def decisionHeaders : SecurityDecision → Headers
  | .proceed => ∅
  | .unauthorized headers _ => headers
  | .forbidden headers _ => headers
  | .preflight headers => headers

theorem policies_oneLine {req : Request} {decision : SecurityDecision}
    (valid : validateConfig c = .ok ()) (safe : SafePolicies c)
    (policy : evaluateSecurityPolicies c req = some decision) :
    (decisionHeaders decision).Each fun name value => OneLine name ∧ OneLine value := by
  have bare := applySecurityHeaders_oneLine valid safe OrderedMap.each_empty req.meth
  have asked : (OrderedMap.ofList [(str "WWW-Authenticate", str "Basic realm=\"\"")]).Each (Kept c) := by
    apply OrderedMap.each_ofList
    simp only [List.forall_mem_singleton]
    exact Or.inr (by decide)
  have challenge := applySecurityHeaders_oneLine valid safe asked req.meth
  unfold evaluateSecurityPolicies at policy
  by_cases refused : hostRefused c req = true
  · rw [if_pos refused] at policy
    cases policy
    exact bare
  · rw [if_neg refused] at policy
    obtain ⟨authorized, -, policy⟩ := Option.bind_eq_some_iff.mp policy
    split_ifs at policy
    · cases policy
      exact challenge
    · cases policy
      exact bare
    · cases policy
      exact OrderedMap.each_empty

end

-- The reply to a served file does not name its type: it is a 416 or a 304.
def Planner.untyped (p : Planner) (file : File) : Bool :=
  match p.askedRange file with
  | .notSatisfiable => true
  | .satisfiable _ => false
  | .notApplicable =>
      shouldReturn304 (p.header (str "if-none-match")) (p.header (str "if-modified-since"))
        file.mtime (p.validators file).1 p.config.weakCompare

/-- The run has come to the reply that serves `file` for `choice`. -/
inductive Serves (p : Planner) : Past → Choice → File → Option Bytes → Prop
  | taken (before : Past) (path : Str) (index : Bool) (missing : Step) (i : Nat) (choice : Choice)
      (file : File) (sample : Option Bytes) (more : Past)
      (turn : Turn p before path index missing i choice) (regular : file.kind = 1)
      (taken : Taken choice file sample more) : Serves p (before ++ more) choice file sample

-- The character set that a sample names does not break the line.
def OneLineCharset (sample : Bytes) : Prop :=
  ∀ charset, sniffHtmlCharset sample = some charset → OneLine charset

/-- The texts that reach a header unchecked are one line where they are used. -/
structure Unsplit (p : Planner) (past : Past) : Prop where
  policies : SafePolicies p.config
  cacheControl : ∀ choice file sample custom, Serves p past choice file sample →
    p.config.cacheControl = some custom → Covered p.config (str "Cache-Control") ∨ OneLine custom
  contentType : ∀ choice file sample, Serves p past choice file sample → p.untyped file = false →
    Covered p.config (str "Content-Type") ∨
      OneLine (p.mime.lookup choice.represented octetStream) ∧
        (p.mime.lookup choice.represented octetStream = str "text/html" →
          ∀ bytes, sample = some bytes → OneLineCharset bytes)

-- Kept, or the `Content-Type` of a reply that does not have it in the end.
def TypedKept (p : Planner) (file : File) (name value : Str) : Prop :=
  p.untyped file = true ∧ name = str "Content-Type" ∨ Kept p.config name value

theorem oneLine_resolveContentType {path : Str} {registry : MimeRegistry} {sample : Option Bytes}
    (mime : OneLine (registry.lookup path octetStream))
    (charset : registry.lookup path octetStream = str "text/html" →
      ∀ bytes, sample = some bytes → OneLineCharset bytes) :
    OneLine (resolveContentType path registry octetStream sample) := by
  have utf8 : OneLine (registry.lookup path octetStream ++ str "; charset=UTF-8") :=
    oneLine_append.mpr ⟨mime, by decide⟩
  unfold resolveContentType
  dsimp only
  split_ifs with binary html
  · exact mime
  · cases found : sample.bind sniffHtmlCharset with
    | none => exact utf8
    | some cs =>
      obtain ⟨bytes, same, sniffed⟩ := Option.bind_eq_some_iff.mp found
      exact oneLine_append.mpr
        ⟨oneLine_append.mpr ⟨mime, by decide⟩, charset html bytes same cs sniffed⟩
  · exact utf8

section

variable {p : Planner} {past : Past} {choice : Choice} {file : File} {sample : Option Bytes}

theorem cacheControl_kept (unsplit : Unsplit p past) (serves : Serves p past choice file sample) :
    Kept p.config (str "Cache-Control") p.config.effectiveCacheControl := by
  unfold Config.effectiveCacheControl
  cases set : p.config.cacheControl with
  | none =>
    refine Or.inr ⟨by decide, ?_⟩
    dsimp only
    split_ifs
    · decide
    · exact oneLine_append.mpr ⟨by decide, oneLine_ofInt _⟩
  | some custom =>
    apply (unsplit.cacheControl choice file sample custom serves set).imp_right
    exact fun oneLine => ⟨by decide, oneLine⟩

theorem validators_kept (p : Planner) (file : File) :
    Kept p.config (str "ETag") (p.validators file).1.toHeaderValue ∧
      Kept p.config (str "Last-Modified") (p.validators file).2 :=
  ⟨Or.inr ⟨by decide, oneLine_toHeaderValue _ _ _⟩,
    Or.inr ⟨by decide, oneLine_formatHttpDate _⟩⟩

theorem Serves.represented (serves : Serves p past choice file sample) :
    ∃ path index, choice ∈ p.representations path index := by
  cases serves with
  | taken before path index missing i _ _ _ more turn =>
    exact ⟨path, index, List.mem_of_getElem? turn.chosen⟩

theorem encoding_oneLine {path enc : Str} {index : Bool}
    (member : choice ∈ p.representations path index) (set : choice.encoding = some enc) :
    OneLine enc := by
  cases representation_extension member set with
  | br => decide
  | gzip => decide

theorem fileHeaders_kept (unsplit : Unsplit p past) (serves : Serves p past choice file sample) :
    (p.fileHeaders file choice.represented choice.encoding sample).Each (TypedKept p file) := by
  obtain ⟨etag, date⟩ := validators_kept p file
  have type : TypedKept p file (str "Content-Type")
      (resolveContentType choice.represented p.mime octetStream sample) := by
    cases untyped : p.untyped file with
    | true => exact Or.inl ⟨untyped, rfl⟩
    | false =>
      apply Or.inr
      apply (unsplit.contentType choice file sample serves untyped).imp_right
      exact fun clean => ⟨by decide, oneLine_resolveContentType clean.1 clean.2⟩
  have plain := OrderedMap.each_ofList (P := TypedKept p file) (l :=
    [(str "Content-Type", resolveContentType choice.represented p.mime octetStream sample),
      (str "Cache-Control", p.config.effectiveCacheControl),
      (str "Accept-Ranges", str "bytes"), (str "ETag", (p.validators file).1.toHeaderValue),
      (str "Last-Modified", (p.validators file).2),
      (str "Content-Length", ofInt file.size.toInt)]) (by
    simp only [List.forall_mem_cons, List.not_mem_nil, false_imp_iff, implies_true, and_true]
    exact ⟨type, Or.inr (cacheControl_kept unsplit serves), Or.inr (Or.inr (by decide)),
      Or.inr etag, Or.inr date, Or.inr (Or.inr ⟨by decide, oneLine_ofInt _⟩)⟩)
  unfold Planner.fileHeaders
  cases set : choice.encoding with
  | none => exact plain
  | some enc =>
    obtain ⟨path, index, member⟩ := serves.represented
    have encoding : TypedKept p file (str "Content-Encoding") enc :=
      Or.inr (Or.inr ⟨by decide, encoding_oneLine member set⟩)
    exact (plain.insert encoding).insert (Or.inr (Or.inr (by decide)))

theorem notModified_kept (unsplit : Unsplit p past) (serves : Serves p past choice file sample) :
    (p.notModified file choice.encoding).headers.Each (Kept p.config) := by
  obtain ⟨etag, date⟩ := validators_kept p file
  have plain := OrderedMap.each_ofList (P := Kept p.config) (l :=
    [(str "ETag", (p.validators file).1.toHeaderValue),
      (str "Last-Modified", (p.validators file).2),
      (str "Cache-Control", p.config.effectiveCacheControl),
      (str "Content-Length", str "0")]) (by
    simp only [List.forall_mem_cons, List.not_mem_nil, false_imp_iff, implies_true, and_true]
    exact ⟨etag, date, cacheControl_kept unsplit serves, Or.inr (by decide)⟩)
  unfold Planner.notModified
  dsimp only
  split_ifs
  · exact plain.insert (Or.inr (by decide))
  · exact plain

theorem typedKept_typed {headers : Headers} (typed : headers.Each (TypedKept p file))
    (untyped : p.untyped file = false) : headers.Each (Kept p.config) :=
  typed.mono fun _ _ kept => kept.resolve_left (by simp [untyped])

-- A range puts its own headers on top, a refused one its own type too.
theorem ranged_kept {headers : Headers} (typed : headers.Each (TypedKept p file)) :
    (p.ranged file headers).status = 200 ∧ p.askedRange file = .notApplicable ∧
        (p.ranged file headers).headers = headers ∨
      (p.ranged file headers).status ≠ 200 ∧
        (p.ranged file headers).headers.Each (Kept p.config) := by
  rw [ranged_eq]
  cases asked : p.askedRange file with
  | notApplicable => exact Or.inl ⟨rfl, rfl, rfl⟩
  | satisfiable r =>
    have named : p.untyped file = false := by simp [Planner.untyped, asked]
    refine Or.inr ⟨show (206 : Int32) ≠ 200 by decide, ?_⟩
    apply ((typedKept_typed typed named).insert ?_).insert
    · exact Or.inr ⟨by decide, oneLine_ofInt _⟩
    · exact Or.inr ⟨by decide, oneLine_formatContentRange _ _ _⟩
  | notSatisfiable =>
    refine Or.inr ⟨show (416 : Int32) ≠ 200 by decide, ?_⟩
    have replaced : headers.Each fun name value =>
        name = str "Content-Type" ∨ Kept p.config name value :=
      typed.mono fun _ _ kept => kept.imp_left And.right
    refine OrderedMap.each_insert (Or.inr (by decide)) ?_
    apply OrderedMap.Each.insert (OrderedMap.Each.insert replaced ?_)
    · exact Or.inr (Or.inr ⟨by decide, oneLine_ofNat _⟩)
    · exact Or.inr (Or.inr ⟨by decide, oneLine_formatContentRangeUnsatisfiable _⟩)

theorem fileReply_kept (unsplit : Unsplit p past) (serves : Serves p past choice file sample) :
    (p.fileReply file choice.represented choice.encoding sample).headers.Each (Kept p.config) := by
  have typed := fileHeaders_kept unsplit serves
  unfold Planner.fileReply
  dsimp only
  split_ifs with unmodified
  · exact notModified_kept unsplit serves
  · rcases ranged_kept typed with ⟨whole, asked, same⟩ | ⟨-, kept⟩
    · rw [same]
      apply typedKept_typed typed
      simpa [Planner.untyped, asked, whole] using unmodified
    · exact kept

theorem Generated.kept {reply : Reply} (valid : validateConfig p.config = .ok ())
    (target : OneLine p.request.target) (policies : SafePolicies p.config)
    (generated : Generated p reply) : reply.headers.Each (Kept p.config) := by
  have decided {decision : SecurityDecision}
      (policy : evaluateSecurityPolicies p.config p.request = some decision) :
      (decisionHeaders decision).Each (Kept p.config) :=
    (policies_oneLine valid policies policy).mono fun _ _ => Or.inr
  cases generated with
  | refused status headers bytes policy =>
    have headers_kept : headers.Each (Kept p.config) := by
      rcases policy with ⟨-, policy⟩ | ⟨-, policy⟩
      · exact decided policy
      · exact decided policy
    apply (headers_kept.insert (Or.inr (by decide))).insert
    exact Or.inr ⟨by decide, oneLine_ofNat _⟩
  | preflight headers policy => exact (decided policy).insert (Or.inr (by decide))
  | text status bytes known =>
    apply OrderedMap.each_ofList
    simp only [List.forall_mem_cons, List.not_mem_nil, false_imp_iff, implies_true, and_true]
    exact ⟨Or.inr (by decide), Or.inr ⟨by decide, oneLine_ofNat _⟩⟩
  | robots bytes =>
    apply OrderedMap.each_ofList
    simp only [List.forall_mem_cons, List.not_mem_nil, false_imp_iff, implies_true, and_true]
    exact ⟨Or.inr (by decide), Or.inr ⟨by decide, oneLine_ofNat _⟩⟩
  | outside =>
    apply OrderedMap.each_ofList
    simp only [List.forall_mem_singleton]
    exact Or.inr (by decide)
  | redirect path resolves noSlash =>
    have piece {text : Str} (member : text ∈ split p.request.target (unit '?')) : OneLine text :=
      target.subset (subset_of_mem_split member)
    have location : OneLine (formatDirRedirect p.rawPath p.query) := by
      apply oneLine_formatDirRedirect
      · unfold Planner.rawPath
        cases pieces : split p.request.target (unit '?') with
        | nil => exact absurd pieces (List.splitOn_ne_nil _ _)
        | cons first others => exact piece (by simp [pieces])
      · exact fun q same => piece (List.mem_of_getElem? same)
    apply OrderedMap.each_ofList
    simp only [List.forall_mem_cons, List.not_mem_nil, false_imp_iff, implies_true, and_true]
    exact ⟨Or.inr ⟨by decide, location⟩, Or.inr (by decide), Or.inr (by decide)⟩

theorem listingReply_kept (body : Body) : (Planner.listingReply body).headers.Each (Kept p.config) := by
  apply OrderedMap.each_ofList
  simp only [List.forall_mem_singleton]
  exact Or.inr (by decide)

theorem Answers.kept {reply : Reply} (valid : validateConfig p.config = .ok ())
    (target : OneLine p.request.target) (answers : Answers p past reply)
    (unsplit : Unsplit p past) : reply.headers.Each (Kept p.config) := by
  cases answers with
  | generated _ _ generated => exact generated.kept valid target unsplit.policies
  | errorPage _ file regular =>
    apply OrderedMap.each_ofList
    simp only [List.forall_mem_cons, List.not_mem_nil, false_imp_iff, implies_true, and_true]
    exact ⟨Or.inr (by decide), Or.inr ⟨by decide, oneLine_ofInt _⟩⟩
  | unlisted _ head => exact listingReply_kept _
  | listed _ stream => exact listingReply_kept _
  | file before path index missing i choice file sample more turn regular taken =>
    exact fileReply_kept unsplit
      (.taken before path index missing i choice file sample more turn regular taken)

end

theorem run_oneLine {config : Config} {request : Request} {mime : MimeRegistry} {past : Past}
    {response : Response} (valid : validateConfig config = .ok ())
    (target : OneLine request.target)
    (run : Run (start config request mime) past (.done (.responds response)))
    (unsplit : Unsplit ⟨config, request, mime⟩ past) :
    ∀ entry ∈ response.headers.entries, OneLine entry.1 ∧ OneLine entry.2 := by
  suffices each : response.headers.Each fun name value => OneLine name ∧ OneLine value by
    intro entry member
    exact each entry.1 entry.2 ((OrderedMap.get_eq_some _ _ _).mpr member)
  obtain ⟨reply, answers, same⟩ := run_responds run
  rw [same]
  have kept := Answers.kept (p := ⟨config, request, mime⟩) valid target answers unsplit
  exact applySecurityHeaders_oneLine (c := config) valid unsplit.policies kept request.meth

theorem standard_oneLine (path : Str) : OneLine (MimeRegistry.new.lookup path octetStream) := by
  have table : MimeRegistry.new.table.Each fun _ mime => OneLine mime :=
    OrderedMap.each_ofList (by decide)
  unfold MimeRegistry.lookup
  cases found : MimeRegistry.new.table.get (extractExtension path) with
  | none => decide
  | some mime => exact table _ mime found

def htmlConfig : Config := .middlewareDefault (str "/site")

def htmlRequest : Request := ⟨.get, str "/a.html", ∅⟩

def htmlFile : File := ⟨1, 1, 40, 0⟩

def htmlPast (sample : String) : Past :=
  [opened (str "/site/a.html") (some htmlFile), opened (str "/site/a.html") (some htmlFile),
    sampled htmlFile (encode (str sample))]

def htmlResponse (charset : String) : Response where
  status := 200
  headers := OrderedMap.ofList
    [(str "Content-Type", str "text/html; charset=" ++ str charset),
      (str "Cache-Control", str "max-age=3600"), (str "Accept-Ranges", str "bytes"),
      (str "ETag", str "W/\"40-0\""), (str "Last-Modified", str "Thu, 01 Jan 1970 00:00:00 GMT"),
      (str "Content-Length", str "40")]
  body := .fileRegion htmlFile 0 40

theorem html_unsplit :
    Unsplit ⟨htmlConfig, htmlRequest, .new⟩ (htmlPast "<meta charset=koi8-r>") := by
  constructor
  · exact ⟨fun enabled => absurd enabled (by decide), fun enabled => absurd enabled (by decide)⟩
  · intro choice file sample custom _ set
    cases set
  · intro choice file sample serves _
    refine Or.inr ⟨standard_oneLine _, ?_⟩
    intro _ bytes same charset sniffed
    have last : ∃ other, (htmlPast "<meta charset=koi8-r>").getLast? = some (sampled other bytes) := by
      generalize htmlPast "<meta charset=koi8-r>" = past at serves ⊢
      cases serves with
      | taken before path index missing i _ _ _ more turn regular taken =>
        cases taken with
        | plain => cases same
        | unzipped => cases same
        | sniffed got =>
          obtain rfl := Option.some.inj same
          exact ⟨file, by simp⟩
    obtain ⟨other, last⟩ := last
    cases last
    obtain rfl : str "koi8-r" = charset := by
      have found : sniffHtmlCharset (encode (str "<meta charset=koi8-r>")) = some (str "koi8-r") := by
        decide +kernel
      exact Option.some.inj (found.symm.trans sniffed)
    decide

theorem run_oneLine_html : ∃ entry ∈ (htmlResponse "koi8-r").headers.entries,
    entry = (str "Content-Type", str "text/html; charset=koi8-r") ∧ OneLine entry.2 := by
  have run : Run (start htmlConfig htmlRequest .new) (htmlPast "<meta charset=koi8-r>")
      (.done (.responds (htmlResponse "koi8-r"))) := run_of_result (by decide +kernel)
  have typed : (str "Content-Type", str "text/html; charset=koi8-r") ∈
      (htmlResponse "koi8-r").headers.entries := by decide +kernel
  exact ⟨_, typed, rfl, (run_oneLine (by decide +kernel) (by decide) run html_unsplit _ typed).2⟩

-- The file names its character set in quotes, and breaks the line between them.
theorem charset_splits : ¬∀ (config : Config) (request : Request) (mime : MimeRegistry)
    (past : Past) (response : Response), validateConfig config = .ok () →
    OneLine request.target ∧ 0 ∉ request.target →
    (∀ entry ∈ request.headers.entries, OneLine entry.2 ∧ 0 ∉ entry.2) →
    Run (start config request mime) past (.done (.responds response)) →
    ∀ entry ∈ response.headers.entries, OneLine entry.1 ∧ OneLine entry.2 := by
  intro oneLine
  have run : Run (start htmlConfig htmlRequest .new) (htmlPast "<meta charset=\"a\r\nX: y\">")
      (.done (.responds (htmlResponse "a\r\nX: y"))) := run_of_result (by decide +kernel)
  have all := oneLine _ _ _ _ _ (by decide +kernel) (by decide) (by decide) run
  exact absurd all (by decide +kernel)

end HttpServer.StaticPlan

import HttpServer.StaticPlan.Positions

set_option autoImplicit false

namespace HttpServer.StaticPlan

open Unicode Text HttpServer.Core Dialogue

def Delivered (past : Past) (file : File) : Prop :=
  file.kind = 1 ∧ ∃ path, opened path (some file) ∈ past

def Began (p : Planner) (past : Past) (path : Str) (answer : Option File) : Prop :=
  resolvePath p.config.root p.config.baseUrl p.request.target = .ok path ∧
    past.head? = some (opened path answer)

/-- The paths whose representations are tried, and whether as an index file. -/
inductive Tried (p : Planner) (past : Past) : Str → Bool → Prop
  | direct (path : Str) (answer : Option File) (began : Began p past path answer)
      (notDirectory : ¬isDirectory answer) : Tried p past path false
  | index (path : Str) (answer : Option File) (began : Began p past path answer)
      (directory : isDirectory answer) (enabled : p.config.autoIndex = true)
      (slash : hasSuffix p.rawPath (str "/") = true) :
      Tried p past (join path (str "index." ++ p.config.defaultExt.getD (str "html"))) true
  | fallback (enabled : p.config.hasFallback = true) :
      Tried p past (join p.config.root (p.config.fallbackTargetFile.getD (str "index.html"))) true

def Denied (past : Past) (path : Str) : Prop :=
  ∃ answer, opened path answer ∈ past.tail ∧ ¬isRegular answer

def Skipped (p : Planner) (past : Past) (i : Nat) (choice : Choice) : Prop :=
  Denied past choice.path ∨ choice.encoding = some gzip ∧
    (i = 0 && p.config.forceContentEncoding && hasSuffix choice.path (str ".gz") &&
      choice.represented != choice.path) = false

inductive Asks (p : Planner) (past : Past) : Query → Prop
  | errorPage : Asks p past (.opens (join p.config.root (str "404.html")))
  | resolved (path : Str)
      (resolved : resolvePath p.config.root p.config.baseUrl p.request.target = .ok path) :
      Asks p past (.opens path)
  | candidate (path : Str) (index : Bool) (choice : Choice) (i : Nat)
      (tried : Tried p past path index) (chosen : (p.representations path index)[i]? = some choice)
      (skipped : ∀ j < i, ∀ earlier, (p.representations path index)[j]? = some earlier →
        Skipped p past j earlier) : Asks p past (.opens choice.path)
  | magic (file : File) (delivered : Delivered past file) : Asks p past (.reads file 2)
  | sample (file : File) (delivered : Delivered past file) : Asks p past (.reads file 1024)
  | listing (path : Str)
      (resolved : resolvePath p.config.root p.config.baseUrl p.request.target = .ok path) :
      Asks p past (.lists path)

/-- The run ends in the answers that make the planner serve `file` as `choice`. -/
inductive Served (choice : Choice) (file : File) : Past → Option Bytes → Prop
  | plain (before : Past) : Served choice file (before ++ [opened choice.path (some file)]) none
  | unzipped (before : Past) (bytes : Bytes) (compressed : choice.encoding = some gzip) :
      Served choice file (before ++ [opened choice.path (some file), ⟨.reads file 2, bytes⟩]) none
  | sniffed (before : Past) (bytes : Bytes) (identity : choice.encoding = none) :
      Served choice file (before ++ [opened choice.path (some file), sampled file bytes])
        (some bytes)

/-- The replies of the planner, before the security headers are applied. -/
inductive Replies (p : Planner) (past : Past) : Reply → Prop
  | refused (status : Int32) (headers : Headers) (bytes : Bytes)
      (policy : evaluateSecurityPolicies p.config p.request = some (.unauthorized headers bytes) ∨
        evaluateSecurityPolicies p.config p.request = some (.forbidden headers bytes)) :
      Replies p past ⟨status,
        (headers.insert (str "Content-Type") (str "text/plain; charset=UTF-8")).insert
          (str "Content-Length") (ofNat bytes.length), .bytes bytes⟩
  | preflight (headers : Headers)
      (policy : evaluateSecurityPolicies p.config p.request = some (.preflight headers)) :
      Replies p past ⟨204, headers.insert (str "Content-Length") (str "0"), .empty⟩
  | text (status : Int32) (contentType : Str) (bytes : Bytes)
      (known : contentType = str "text/plain; charset=UTF-8" ∨ contentType = str "text/plain") :
      Replies p past ⟨status, OrderedMap.ofList
        [(str "Content-Type", contentType), (str "Content-Length", ofNat bytes.length)],
        .bytes bytes⟩
  | outside : Replies p past ⟨403, OrderedMap.ofList [(str "Content-Length", str "0")], .empty⟩
  | errorPage (file : File) (delivered : Delivered past file) :
      Replies p past ⟨404, OrderedMap.ofList
        [(str "Content-Type", str "text/html; charset=UTF-8"),
          (str "Content-Length", ofInt file.size.toInt)], .fileRegion file 0 file.size⟩
  | redirect (query : Option Str)
      (rest : query = (split p.request.target (unit '?'))[1]?) :
      Replies p past ⟨302, OrderedMap.ofList
        [(str "Location",
            formatDirRedirect ((split p.request.target (unit '?')).headD []) query),
          (str "Content-Type", str "text/html; charset=UTF-8"),
          (str "Content-Length", str "0")], .empty⟩
  | listing (body : Body) (noFile : ∀ file offset length, body ≠ .fileRegion file offset length) :
      Replies p past ⟨200,
        OrderedMap.ofList [(str "Content-Type", str "text/html; charset=UTF-8")], body⟩
  | file (file : File) (path : Str) (index : Bool) (choice : Choice) (sample : Option Bytes)
      (tried : Tried p past path index) (member : choice ∈ p.representations path index)
      (delivered : Delivered past file)
      (served : Served choice file past sample) :
      Replies p past (p.fileReply file choice.represented choice.encoding sample)

inductive Ends (p : Planner) (past : Past) : Outcome → Prop
  | responds (reply : Reply) (replies : Replies p past reply) :
      Ends p past (.responds ⟨reply.status,
        applySecurityHeaders reply.headers p.config p.request.meth,
        if p.request.meth = .head then .empty else reply.body⟩)
  | next : Ends p past .next
  | changed : Ends p past .changed
  | trap : Ends p past .trap

section

variable {p : Planner}

theorem Passes.skipped {choices : List Choice} {i : Nat} {more : Past}
    (passes : Passes p choices i more) (past : Past) (after : ∀ event ∈ more, event ∈ past.tail)
    (j : Nat) (choice : Choice) (chosen : choices[j]? = some choice) :
    Skipped p past (i + j) choice := by
  induction passes generalizing j with
  | start i => simp at chosen
  | denied first rest i answer more notRegular later ih =>
    cases j with
    | zero =>
      obtain rfl : first = choice := by simpa using chosen
      exact Or.inl ⟨answer, after _ List.mem_cons_self, notRegular⟩
    | succ j =>
      have skipped := ih (fun event member => after event (List.mem_cons_of_mem _ member)) j
        (by simpa using chosen)
      rwa [Nat.add_assoc, Nat.add_comm 1 j] at skipped
  | wrong first rest i file bytes more regular compressed noMagic lenient later ih =>
    cases j with
    | zero =>
      obtain rfl : first = choice := by simpa using chosen
      exact Or.inr ⟨compressed, lenient⟩
    | succ j =>
      have skipped := ih (fun event member =>
        after event (List.mem_cons_of_mem _ (List.mem_cons_of_mem _ member))) j (by simpa using chosen)
      rwa [Nat.add_assoc, Nat.add_comm 1 j] at skipped

theorem Trying.ne_nil {prior : Past} {path : Str} {index : Bool} {missing : Step}
    (trying : Trying p prior path index missing) : prior ≠ [] := by
  cases trying <;> simp

theorem Trying.tried {prior : Past} {path : Str} {index : Bool} {missing : Step}
    (trying : Trying p prior path index missing) (more : Past) :
    Tried p (prior ++ more) path index := by
  cases trying with
  | direct _ answer resolves notDirectory =>
    exact .direct path answer ⟨resolves.resolved, rfl⟩ notDirectory
  | index path answer resolves directory enabled slash =>
    exact .index path answer ⟨resolves.resolved, rfl⟩ directory enabled slash
  | fallback _ _ _ _ _ _ enabled => exact .fallback enabled

section

variable {past : Past} {path : Str} {index : Bool} {missing : Step} {i : Nat} {choice : Choice}

theorem Turn.tried (turn : Turn p past path index missing i choice) (more : Past) :
    Tried p (past ++ more) path index := by
  obtain ⟨prior, passed, rfl, trying, _⟩ := turn.reached
  rw [List.append_assoc]
  exact trying.tried _

theorem Turn.skipped (turn : Turn p past path index missing i choice) (j : Nat) (before : j < i)
    (earlier : Choice) (chosen : (p.representations path index)[j]? = some earlier) :
    Skipped p past j earlier := by
  obtain ⟨prior, passed, rfl, trying, passes⟩ := turn.reached
  have skipped := passes.skipped (prior ++ passed) ?_ j earlier ?_
  · rwa [Nat.zero_add] at skipped
  · intro event member
    rw [List.tail_append_of_ne_nil trying.ne_nil]
    exact List.mem_append_right _ member
  · rw [List.getElem?_take_of_lt before]
    exact chosen

theorem delivered_last (past : Past) {path : Str} {file : File} (regular : file.kind = 1) :
    Delivered (past ++ [opened path (some file)]) file :=
  ⟨regular, path, by simp⟩

theorem Taken.delivered {file : File} {sample : Option Bytes} {more : Past}
    (taken : Taken choice file sample more) (past : Past) (regular : file.kind = 1) :
    Delivered (past ++ more) file := by
  refine ⟨regular, choice.path, ?_⟩
  cases taken <;> simp

theorem Taken.served {file : File} {sample : Option Bytes} {more : Past}
    (taken : Taken choice file sample more) (past : Past) :
    Served choice file (past ++ more) sample := by
  cases taken with
  | plain => exact .plain past
  | sniffed bytes identity => exact .sniffed past bytes identity
  | unzipped bytes compressed => exact .unzipped past bytes compressed

end

theorem Looks.asks {past : Past} {query : Query} (looks : Looks p past query) :
    Asks p past query := by
  cases looks with
  | resolved path resolves => exact .resolved path resolves.resolved
  | candidate _ path index missing i choice turn =>
    have tried := turn.tried []
    rw [List.append_nil] at tried
    exact .candidate path index choice i tried turn.chosen turn.skipped
  | magic past _ _ _ _ _ file turn regular => exact .magic file (delivered_last past regular)
  | sample past _ _ _ _ _ file turn regular => exact .sample file (delivered_last past regular)
  | errorPage => exact .errorPage
  | listing _ path resolves => exact .listing path resolves.resolved

theorem Generated.replies {reply : Reply} (generated : Generated p reply) (past : Past) :
    Replies p past reply := by
  cases generated with
  | refused status headers bytes policy =>
    exact .refused status headers bytes (policy.imp And.right And.right)
  | preflight headers policy => exact .preflight headers policy
  | text status bytes => exact .text status _ bytes (Or.inl rfl)
  | robots bytes => exact .text 200 _ bytes (Or.inr rfl)
  | outside => exact .outside
  | redirect => exact .redirect p.query rfl

theorem Answers.replies {past : Past} {reply : Reply} (answers : Answers p past reply) :
    Replies p past reply := by
  cases answers with
  | generated _ reply generated => exact generated.replies past
  | errorPage before file regular => exact .errorPage file (delivered_last before regular)
  | unlisted => exact .listing .empty (by simp)
  | listed _ stream => exact .listing (.listing stream) (by simp)
  | file before path index missing i choice file sample more turn regular taken =>
    exact .file file path index choice sample (turn.tried more)
      (List.mem_of_getElem? turn.chosen) (taken.delivered before regular) (taken.served before)

theorem Finishes.ends {past : Past} {outcome : Outcome} (finishes : Finishes p past outcome) :
    Ends p past outcome := by
  cases finishes with
  | responds _ reply answers => exact .responds reply answers.replies
  | changed => exact .changed
  | next => exact .next
  | trap => exact .trap

end

theorem run_asks {config : Config} {request : Request} {mime : MimeRegistry} {past : Past}
    {query : Query} {next : query.Answer → Step}
    (run : Run (start config request mime) past (.ask query next)) :
    Asks ⟨config, request, mime⟩ past query :=
  (run_looks run).asks

theorem run_ends {config : Config} {request : Request} {mime : MimeRegistry} {past : Past}
    {outcome : Outcome} (run : Run (start config request mime) past (.done outcome)) :
    Ends ⟨config, request, mime⟩ past outcome :=
  (run_finishes run).ends

end HttpServer.StaticPlan

import HttpServer.StaticPlan.Positions
import HttpServer.Core.FieldValues

set_option autoImplicit false

namespace HttpServer.StaticPlan

open Unicode Text HttpServer.Core Dialogue

def Planner.askedRange (p : Planner) (file : File) : RangeResult :=
  if (p.header (str "if-range")).isNone then
    match p.header (str "range") with
    | some range => parseRangeSpec range file.size
    | none => .notApplicable
  else .notApplicable

def Planner.unmodified (p : Planner) (file : File) : Bool :=
  shouldReturn304 (p.header (str "if-none-match")) (p.header (str "if-modified-since"))
    file.mtime (p.validators file).1 p.config.weakCompare

def Planner.partialReply (file : File) (headers : Headers) (r : ByteRange) : Reply :=
  ⟨206, (headers.insert (str "Content-Range")
      (formatContentRange r.start r.end file.size)).insert (str "Content-Length")
      (ofInt (r.end - r.start + 1).toInt),
    .fileRegion file r.start (r.end - r.start + 1)⟩

def refusedRange : Bytes := encode (str "Requested range not satisfiable")

def Planner.refusedReply (file : File) (headers : Headers) : Reply :=
  ⟨416, ((headers.insert (str "Content-Range")
      (formatContentRangeUnsatisfiable file.size)).insert (str "Content-Length")
      (ofNat refusedRange.length)).insert (str "Content-Type") (str "text/plain; charset=UTF-8"),
    .bytes refusedRange⟩

theorem ranged_eq (p : Planner) (file : File) (headers : Headers) : p.ranged file headers =
    match p.askedRange file with
    | .satisfiable r => Planner.partialReply file headers r
    | .notSatisfiable => Planner.refusedReply file headers
    | .notApplicable => ⟨200, headers, .fileRegion file 0 file.size⟩ := by
  unfold Planner.ranged Planner.askedRange
  dsimp only
  split_ifs
  · cases p.header (str "range") with
    | none => rfl
    | some range =>
      dsimp only
      cases parseRangeSpec range file.size <;> rfl
  · rfl

theorem fileReply_eq (p : Planner) (file : File) (path : Str) (encoding : Option Str)
    (sample : Option Bytes) : p.fileReply file path encoding sample =
    match p.askedRange file with
    | .satisfiable r => Planner.partialReply file (p.fileHeaders file path encoding sample) r
    | .notSatisfiable => Planner.refusedReply file (p.fileHeaders file path encoding sample)
    | .notApplicable => if p.unmodified file then p.notModified file encoding
        else ⟨200, p.fileHeaders file path encoding sample, .fileRegion file 0 file.size⟩ := by
  unfold Planner.fileReply
  rw [ranged_eq]
  cases p.askedRange file with
  | satisfiable r =>
    have status : (206 : Int32) ≠ 200 := by decide
    simp [Planner.partialReply, status]
  | notSatisfiable =>
    have status : (416 : Int32) ≠ 200 := by decide
    simp [Planner.refusedReply, status]
  | notApplicable => cases fresh : p.unmodified file <;> simp_all [Planner.unmodified]

theorem hasSuffix_append (s suffix : Str) : hasSuffix (s ++ suffix) suffix = true :=
  List.isSuffixOf_iff_suffix.mpr (List.suffix_append s suffix)

/-- The encoding that the name of an encoded file stands for. -/
inductive Extension : Str → Str → Prop
  | br (path : Str) (suffix : hasSuffix path (str ".br") = true) : Extension path br
  | gzip (path : Str) (suffix : hasSuffix path (str ".gz") = true) : Extension path gzip

theorem defaultChoices_plain {c : Config} {base : Str} {index : Bool} :
    ∀ choice ∈ defaultChoices c base index, choice.encoding = none := by
  intro choice member
  unfold defaultChoices at member
  split at member
  · split_ifs at member
    · rw [List.mem_singleton.mp member]
    · cases member
  · cases member

theorem representation_extension {p : Planner} {path : Str} {index : Bool} {choice : Choice}
    {enc : Str} (member : choice ∈ p.representations path index) (set : choice.encoding = some enc) :
    Extension choice.path enc := by
  simp only [Planner.representations, List.mem_append] at member
  rcases member with (((forced | compressed) | compressed) | plain) | ext
  · unfold forcedChoices at forced
    split_ifs at forced with enabled brotli zipped
    · simp only [Bool.and_eq_true] at brotli
      obtain rfl := List.mem_singleton.mp forced
      cases set
      exact .br _ brotli.1
    · simp only [Bool.and_eq_true] at zipped
      obtain rfl := List.mem_singleton.mp forced
      cases set
      exact .gzip _ zipped.1
    · cases forced
    · cases forced
  · split_ifs at compressed
    · obtain rfl := List.mem_singleton.mp compressed
      cases set
      exact .br _ (hasSuffix_append _ _)
    · cases compressed
  · split_ifs at compressed
    · obtain rfl := List.mem_singleton.mp compressed
      cases set
      exact .gzip _ (hasSuffix_append _ _)
    · cases compressed
  · obtain rfl := List.mem_singleton.mp plain
    cases set
  · exact absurd ((defaultChoices_plain choice ext).symm.trans set) (by simp)

def generatedNames : List Str :=
  ["Content-Type", "Content-Length", "Location", "WWW-Authenticate"].map str ++ securityNames

def fileNames : List Str :=
  ["Content-Type", "Content-Length", "Cache-Control", "Accept-Ranges", "ETag", "Last-Modified",
    "Content-Encoding", "Vary", "Content-Range"].map str

def replyNames : List Str := fileNames ++ generatedNames

section

variable {p : Planner}

theorem fileHeaders_named (file : File) (path : Str) (encoding : Option Str) (sample : Option Bytes) :
    (p.fileHeaders file path encoding sample).Each fun name _ => name ∈ fileNames := by
  have plain := OrderedMap.each_ofList (P := fun name (_ : Str) => name ∈ fileNames) (l :=
    [(str "Content-Type", resolveContentType path p.mime octetStream sample),
      (str "Cache-Control", p.config.effectiveCacheControl),
      (str "Accept-Ranges", str "bytes"), (str "ETag", (p.validators file).1.toHeaderValue),
      (str "Last-Modified", (p.validators file).2),
      (str "Content-Length", ofInt file.size.toInt)]) (by
    simp only [List.forall_mem_cons, List.not_mem_nil, false_imp_iff, implies_true, and_true]
    decide)
  unfold Planner.fileHeaders
  cases encoding with
  | none => exact plain
  | some enc => exact (plain.insert (by decide)).insert (by decide)

theorem fileReply_fileNames (file : File) (path : Str) (encoding : Option Str) (sample : Option Bytes) :
    (p.fileReply file path encoding sample).headers.Each fun name _ => name ∈ fileNames := by
  have named := fileHeaders_named (p := p) file path encoding sample
  rw [fileReply_eq]
  cases p.askedRange file with
  | satisfiable r => exact (named.insert (by decide)).insert (by decide)
  | notSatisfiable => exact ((named.insert (by decide)).insert (by decide)).insert (by decide)
  | notApplicable =>
    dsimp only
    split_ifs
    · unfold Planner.notModified
      have plain := OrderedMap.each_ofList (P := fun name (_ : Str) => name ∈ fileNames) (l :=
        [(str "ETag", (p.validators file).1.toHeaderValue),
          (str "Last-Modified", (p.validators file).2),
          (str "Cache-Control", p.config.effectiveCacheControl),
          (str "Content-Length", str "0")]) (by
        simp only [List.forall_mem_cons, List.not_mem_nil, false_imp_iff, implies_true, and_true]
        decide)
      dsimp only
      split_ifs
      · exact plain.insert (by decide)
      · exact plain
    · exact named

theorem fileReply_named (file : File) (path : Str) (encoding : Option Str) (sample : Option Bytes) :
    (p.fileReply file path encoding sample).headers.Each fun name _ => name ∈ replyNames :=
  (fileReply_fileNames file path encoding sample).mono fun _ _ => List.mem_append_left _

theorem policy_named {headers : Headers} {body : Bytes}
    (policy : evaluateSecurityPolicies p.config p.request = some (.unauthorized headers body) ∨
      evaluateSecurityPolicies p.config p.request = some (.forbidden headers body) ∨
      evaluateSecurityPolicies p.config p.request = some (.preflight headers)) :
    headers.Each fun name _ => name ∈ generatedNames ∨ name ∈ p.config.customHeaders.keys := by
  rcases policy_headers policy with same | same <;> subst same
  · exact keys_applySecurityHeaders OrderedMap.each_empty
      (fun _ known => Or.inl (List.mem_append_right _ known)) (fun _ => Or.inr) _
  · apply keys_applySecurityHeaders _
      (fun _ known => Or.inl (List.mem_append_right _ known)) (fun _ => Or.inr) _
    apply OrderedMap.each_ofList
    simp only [List.forall_mem_singleton]
    exact Or.inl (by decide)

theorem Generated.named {reply : Reply} (generated : Generated p reply) :
    reply.headers.Each fun name _ =>
      name ∈ generatedNames ∨ name ∈ p.config.customHeaders.keys := by
  cases generated with
  | refused status headers bytes policy =>
    have named := policy_named (policy.imp And.right (Or.inl ∘ And.right))
    exact (named.insert (Or.inl (by decide))).insert (Or.inl (by decide))
  | preflight headers policy =>
    have named := @policy_named p headers [] (Or.inr (Or.inr policy))
    exact named.insert (Or.inl (by decide))
  | text | robots =>
    apply OrderedMap.each_ofList
    simp only [List.forall_mem_cons, List.not_mem_nil, false_imp_iff, implies_true, and_true]
    exact ⟨Or.inl (by decide), Or.inl (by decide)⟩
  | outside =>
    apply OrderedMap.each_ofList
    simp only [List.forall_mem_singleton]
    exact Or.inl (by decide)
  | redirect =>
    apply OrderedMap.each_ofList
    simp only [List.forall_mem_cons, List.not_mem_nil, false_imp_iff, implies_true, and_true]
    exact ⟨Or.inl (by decide), Or.inl (by decide), Or.inl (by decide)⟩

theorem errorReply_named (file : File) :
    (Planner.errorReply file).headers.Each fun name _ => name ∈ generatedNames := by
  apply OrderedMap.each_ofList
  simp only [List.forall_mem_cons, List.not_mem_nil, false_imp_iff, implies_true, and_true]
  exact ⟨by decide, by decide⟩

theorem listingReply_named (body : Body) :
    (Planner.listingReply body).headers.Each fun name _ => name ∈ generatedNames := by
  apply OrderedMap.each_ofList
  simp only [List.forall_mem_singleton]
  decide

-- A header of a reply is one of the code's own, or, where the policies answer, a custom one.
theorem Answers.named {past : Past} {reply : Reply} (answers : Answers p past reply) :
    reply.headers.Each fun key _ => key ∈ replyNames ∨ key ∈ p.config.customHeaders.keys := by
  have generated {key : Str} (known : key ∈ generatedNames) :
      key ∈ replyNames ∨ key ∈ p.config.customHeaders.keys :=
    Or.inl (List.mem_append_right _ known)
  cases answers with
  | generated _ _ made => exact made.named.mono fun _ _ known => known.elim generated Or.inr
  | errorPage _ file => exact (errorReply_named file).mono fun _ _ => generated
  | unlisted => exact (listingReply_named _).mono fun _ _ => generated
  | listed => exact (listingReply_named _).mono fun _ _ => generated
  | file => exact (fileReply_named _ _ _ _).mono fun _ _ => Or.inl

end

end HttpServer.StaticPlan

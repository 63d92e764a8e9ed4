import HttpServer.StaticPlan.Regions
import HttpServer.StaticPlan.Replies

set_option autoImplicit false

namespace HttpServer.StaticPlan

open Unicode Text HttpServer.Core Dialogue

-- The bytes of a body; a listing is rendered while it is sent.
def Body.size? : Body → Option Int
  | .empty => some 0
  | .bytes content => some content.length
  | .fileRegion _ _ length => some length.toInt
  | .listing _ => none

theorem ofInt_natCast (n : Nat) : ofInt n = ofNat n := by
  simp [ofInt]

-- A name that is not custom is spelled as the code spells it.
theorem spelled_sent {p : Planner} {past : Past} {reply : Reply} {name : Str}
    (answers : Answers p past reply) (notCustom : NotCustom p.config name)
    (spelling : ∀ key ∈ replyNames, toLower key = toLower name → key = name) :
    Spelled (p.sent reply).headers name := by
  have sent : (p.sent reply).headers.Each fun key _ =>
      key ∈ replyNames ∨ key ∈ p.config.customHeaders.keys :=
    keys_applySecurityHeaders answers.named
      (fun _ known => Or.inl (List.mem_append_right _ (List.mem_append_right _ known)))
      (fun _ => Or.inr) p.request.meth
  intro key value found same
  rcases sent key value found with known | custom
  · exact spelling key known same
  · exact absurd same (notCustom key custom)

-- A name that the security headers leave alone has its values from the reply.
theorem fieldValues_sent {p : Planner} {past : Past} {reply : Reply} {name : Str}
    (answers : Answers p past reply) (notCustom : NotCustom p.config name)
    (spelling : ∀ key ∈ replyNames, toLower key = toLower name → key = name)
    (other : name ∉ securityNames) :
    fieldValues (p.sent reply).headers name = (reply.headers.get name).toList := by
  rw [fieldValues_eq (spelled_sent answers notCustom spelling)]
  exact congrArg Option.toList (get_applySecurityHeaders other notCustom.absent _)

section

variable {p : Planner}

theorem Generated.measured {reply : Reply} (generated : Generated p reply) :
    reply.headers.get (str "Content-Length") = reply.body.size?.map ofInt := by
  cases generated with
  | refused =>
    rw [OrderedMap.get_insert_self, Body.size?, Option.map_some, ofInt_natCast]
  | preflight =>
    rw [OrderedMap.get_insert_self]
    rfl
  | text | robots =>
    rw [Body.size?, Option.map_some, ofInt_natCast]
    exact OrderedMap.get_insert_self _ _ _
  | outside => rfl
  | redirect => exact OrderedMap.get_insert_self _ _ _

theorem fileHeaders_length (file : File) (path : Str) (encoding : Option Str)
    (sample : Option Bytes) :
    (p.fileHeaders file path encoding sample).get (str "Content-Length") =
      some (ofInt file.size.toInt) := by
  have vary : str "Content-Length" ≠ str "Vary" := by decide
  have encodes : str "Content-Length" ≠ str "Content-Encoding" := by decide
  unfold Planner.fileHeaders
  cases encoding with
  | none => exact OrderedMap.get_insert_self _ _ _
  | some enc =>
    dsimp only
    rw [OrderedMap.get_insert_ne _ _ vary, OrderedMap.get_insert_ne _ _ encodes]
    exact OrderedMap.get_insert_self _ _ _

theorem notModified_length (file : File) (encoding : Option Str) :
    (p.notModified file encoding).headers.get (str "Content-Length") = some (str "0") := by
  have vary : str "Content-Length" ≠ str "Vary" := by decide
  unfold Planner.notModified
  dsimp only
  split_ifs
  · rw [OrderedMap.get_insert_ne _ _ vary]
    exact OrderedMap.get_insert_self _ _ _
  · exact OrderedMap.get_insert_self _ _ _

theorem fileReply_measured (file : File) (path : Str) (encoding : Option Str)
    (sample : Option Bytes) :
    (p.fileReply file path encoding sample).headers.get (str "Content-Length") =
      (p.fileReply file path encoding sample).body.size?.map ofInt := by
  have type : str "Content-Length" ≠ str "Content-Type" := by decide
  rw [fileReply_eq]
  cases p.askedRange file with
  | satisfiable r => exact OrderedMap.get_insert_self _ _ _
  | notSatisfiable =>
    dsimp only [Planner.refusedReply]
    rw [OrderedMap.get_insert_ne _ _ type, OrderedMap.get_insert_self, Body.size?, Option.map_some,
      ofInt_natCast]
  | notApplicable =>
    dsimp only
    split_ifs
    · exact notModified_length file encoding
    · exact fileHeaders_length file path encoding sample

theorem Answers.measured {past : Past} {reply : Reply} (answers : Answers p past reply)
    (get : p.request.meth ≠ .head) :
    reply.headers.get (str "Content-Length") = reply.body.size?.map ofInt := by
  cases answers with
  | generated _ _ generated => exact generated.measured
  | errorPage => exact OrderedMap.get_insert_self _ _ _
  | unlisted _ head => exact absurd head get
  | listed => rfl
  | file => exact fileReply_measured _ _ _ _

def replyStatuses : List Int32 := [200, 204, 206, 302, 304, 400, 401, 403, 404, 416]

-- The status is one of those known, and one that tells of no body comes without one.
def Reply.Framed (reply : Reply) : Prop :=
  reply.status ∈ replyStatuses ∧ (reply.status = 204 ∨ reply.status = 304 → reply.body = .empty)

theorem Reply.framed_of {reply : Reply} (known : reply.status ∈ replyStatuses)
    (bodied : reply.status ≠ 204 ∧ reply.status ≠ 304) : reply.Framed :=
  ⟨known, fun empty => (empty.elim bodied.1 bodied.2).elim⟩

theorem Answers.framed {past : Past} {reply : Reply} (answers : Answers p past reply) :
    reply.Framed := by
  have known {status : Int32} {headers : Headers} {body : Body} (member : status ∈ replyStatuses)
      (bodied : status ≠ 204 ∧ status ≠ 304) : Reply.Framed ⟨status, headers, body⟩ :=
    Reply.framed_of member bodied
  cases answers with
  | generated _ _ generated =>
    cases generated with
    | refused status headers bytes policy =>
      rcases policy with ⟨rfl, -⟩ | ⟨rfl, -⟩ <;> exact known (by decide) (by decide)
    | preflight => exact ⟨show (204 : Int32) ∈ replyStatuses by decide, fun _ => rfl⟩
    | text status bytes listed =>
      simp only [List.mem_cons, List.not_mem_nil, or_false] at listed
      rcases listed with rfl | rfl | rfl <;> exact known (by decide) (by decide)
    | robots => exact known (by decide) (by decide)
    | outside => exact known (by decide) (by decide)
    | redirect => exact known (by decide) (by decide)
  | errorPage => exact known (by decide) (by decide)
  | unlisted => exact known (by decide) (by decide)
  | listed => exact known (by decide) (by decide)
  | file =>
    rw [fileReply_eq]
    split
    · exact known (by decide) (by decide)
    · exact known (by decide) (by decide)
    · split_ifs
      · exact ⟨show (304 : Int32) ∈ replyStatuses by decide, fun _ => rfl⟩
      · exact known (by decide) (by decide)

def wholeStatuses : List Int32 := [200, 204, 302, 304, 400, 401, 403, 404]

theorem Generated.status {reply : Reply} (generated : Generated p reply) :
    reply.status ∈ wholeStatuses := by
  cases generated with
  | refused status headers bytes policy =>
    rcases policy with ⟨same, _⟩ | ⟨same, _⟩
    · exact (congrArg (· ∈ wholeStatuses) same).mpr (by decide)
    · exact (congrArg (· ∈ wholeStatuses) same).mpr (by decide)
  | preflight => exact (show (204 : Int32) ∈ wholeStatuses by decide)
  | text status bytes known =>
    have all : [(400 : Int32), 403, 404] ⊆ wholeStatuses := by simp [wholeStatuses]
    exact all known
  | robots => exact (show (200 : Int32) ∈ wholeStatuses by decide)
  | outside => exact (show (403 : Int32) ∈ wholeStatuses by decide)
  | redirect => exact (show (302 : Int32) ∈ wholeStatuses by decide)

-- `bytes s-e/size` for `length` bytes from `offset` on.
def contentRange (offset length size : Int) : Str :=
  str "bytes " ++ ofInt offset ++ str "-" ++ ofInt (offset + length - 1) ++ str "/" ++ ofInt size

def Ranged (past : Past) (reply : Reply) : Prop :=
  (reply.status = 206 → ∃ file offset length, reply.body = .fileRegion file offset length ∧
    Delivered past file ∧ reply.headers.get (str "Content-Range") =
      some (contentRange offset.toInt length.toInt file.size.toInt)) ∧
  (reply.status = 416 → ∃ file, Delivered past file ∧ reply.headers.get (str "Content-Range") =
    some (str "bytes */" ++ ofInt file.size.toInt))

theorem askedRange_within {file : File} {r : ByteRange}
    (asked : p.askedRange file = .satisfiable r) : r.Within file.size := by
  unfold Planner.askedRange at asked
  split_ifs at asked
  cases header : p.header (str "range") with
  | none => simp [header] at asked
  | some range =>
    rw [header] at asked
    exact parseRangeSpec_within asked

theorem partialReply_ranged {past : Past} {file : File} {r : ByteRange}
    (delivered : Delivered past file) (within : r.Within file.size) (headers : Headers) :
    Ranged past (Planner.partialReply file headers r) := by
  refine ⟨fun _ => ?_, fun status => absurd status (show (206 : Int32) ≠ 416 by decide)⟩
  have other : str "Content-Range" ≠ str "Content-Length" := by decide
  have region := inside_range within.first within.order within.bound
  refine ⟨file, r.start, r.end - r.start + 1, rfl, delivered, ?_⟩
  dsimp only [Planner.partialReply]
  rw [OrderedMap.get_insert_ne _ _ other, OrderedMap.get_insert_self]
  have high := Int64.toInt_lt file.size
  have length : (r.end - r.start + 1).toInt = r.end.toInt - r.start.toInt + 1 := by
    have gap : (r.end - r.start).toInt = r.end.toInt - r.start.toInt :=
      toInt_sub_of within.first within.order
    have first := within.first
    have order := within.order
    have bound := within.bound
    rw [toInt_add_of (by omega) (by simp) (by rw [toInt_one]; omega), gap, toInt_one]
  have last : r.start.toInt + (r.end - r.start + 1).toInt - 1 = r.end.toInt := by omega
  rw [contentRange, last, formatContentRange]

theorem refusedReply_ranged {past : Past} {file : File} (delivered : Delivered past file)
    (headers : Headers) : Ranged past (Planner.refusedReply file headers) := by
  refine ⟨fun status => absurd status (show (416 : Int32) ≠ 206 by decide), fun _ => ?_⟩
  have length : str "Content-Range" ≠ str "Content-Length" := by decide
  have type : str "Content-Range" ≠ str "Content-Type" := by decide
  refine ⟨file, delivered, ?_⟩
  dsimp only [Planner.refusedReply]
  rw [OrderedMap.get_insert_ne _ _ type, OrderedMap.get_insert_ne _ _ length,
    OrderedMap.get_insert_self, formatContentRangeUnsatisfiable]

theorem ranged_of_status {past : Past} {reply : Reply} (whole : reply.status ∈ wholeStatuses) :
    Ranged past reply := by
  constructor
  · intro status
    rw [status] at whole
    exact absurd whole (by decide)
  · intro status
    rw [status] at whole
    exact absurd whole (by decide)

theorem Answers.ranged {past : Past} {reply : Reply} (answers : Answers p past reply) :
    Ranged past reply := by
  cases answers with
  | generated _ _ generated => exact ranged_of_status generated.status
  | errorPage =>
    exact ranged_of_status (show (404 : Int32) ∈ wholeStatuses by decide)
  | unlisted =>
    exact ranged_of_status (show (200 : Int32) ∈ wholeStatuses by decide)
  | listed =>
    exact ranged_of_status (show (200 : Int32) ∈ wholeStatuses by decide)
  | file before path index missing i choice file sample more turn regular taken =>
    have delivered := taken.delivered before regular
    rw [fileReply_eq]
    cases asked : p.askedRange file with
    | satisfiable r => exact partialReply_ranged delivered (askedRange_within asked) _
    | notSatisfiable => exact refusedReply_ranged delivered _
    | notApplicable =>
      dsimp only
      split_ifs
      · exact ranged_of_status (show (304 : Int32) ∈ wholeStatuses by decide)
      · exact ranged_of_status (show (200 : Int32) ∈ wholeStatuses by decide)

end

/-- What a response to a GET request says about its length and its range is true of its body:
only a listing has no length. -/
theorem run_lengths {config : Config} {request : Request} {mime : MimeRegistry} {past : Past}
    {response : Response} (get : request.meth = .get)
    (length : NotCustom config (str "Content-Length"))
    (range : NotCustom config (str "Content-Range"))
    (run : Run (start config request mime) past (.done (.responds response))) :
    fieldValues response.headers (str "Content-Length") = (response.body.size?.map ofInt).toList ∧
      (response.status = 206 → ∃ file offset length,
        response.body = .fileRegion file offset length ∧ Delivered past file ∧
          fieldValues response.headers (str "Content-Range") =
            [contentRange offset.toInt length.toInt file.size.toInt]) ∧
      (response.status = 416 → ∃ file, Delivered past file ∧
        fieldValues response.headers (str "Content-Range") =
          [str "bytes */" ++ ofInt file.size.toInt]) := by
  obtain ⟨reply, answers, rfl⟩ := run_responds run
  have other : request.meth ≠ .head := by simp [get]
  have body : (Planner.sent ⟨config, request, mime⟩ reply).body = reply.body := if_neg other
  have ranges := fieldValues_sent answers range (by decide) (by decide)
  rw [fieldValues_sent answers length (by decide) (by decide), body, ranges,
    answers.measured other]
  refine ⟨rfl, fun status => ?_, fun status => ?_⟩
  · obtain ⟨file, offset, length, same, delivered, value⟩ := answers.ranged.1 status
    exact ⟨file, offset, length, same, delivered, congrArg Option.toList value⟩
  · obtain ⟨file, delivered, value⟩ := answers.ranged.2 status
    exact ⟨file, delivered, congrArg Option.toList value⟩

theorem clipConfig_notCustom (name : Str) : NotCustom clipConfig name := by
  intro key member
  cases member

theorem run_lengths_clip :
    fieldValues clipResponse.headers (str "Content-Length") =
        (clipResponse.body.size?.map ofInt).toList ∧
      (clipResponse.status = 206 → ∃ file offset length,
        clipResponse.body = .fileRegion file offset length ∧ Delivered clipPast file ∧
          fieldValues clipResponse.headers (str "Content-Range") =
            [contentRange offset.toInt length.toInt file.size.toInt]) ∧
      (clipResponse.status = 416 → ∃ file, Delivered clipPast file ∧
        fieldValues clipResponse.headers (str "Content-Range") =
          [str "bytes */" ++ ofInt file.size.toInt]) := by
  have run : Run (start clipConfig clipRequest .new) clipPast (.done (.responds clipResponse)) :=
    run_of_result (by decide +kernel)
  exact run_lengths rfl (clipConfig_notCustom _) (clipConfig_notCustom _) run

end HttpServer.StaticPlan

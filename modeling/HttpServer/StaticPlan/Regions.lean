import HttpServer.StaticPlan.Runs

set_option autoImplicit false

namespace HttpServer.StaticPlan

open HttpServer.Core Dialogue

-- The file a body takes its bytes from was delivered, and it has them.
def Body.InBounds (past : Past) : Body → Prop
  | .fileRegion file offset length => Delivered past file ∧ Inside offset length file.size
  | _ => True

def SizesNonneg (past : Past) : Prop :=
  ∀ path file, opened path (some file) ∈ past → 0 ≤ file.size.toInt

theorem Delivered.size {past : Past} {file : File} (delivered : Delivered past file)
    (sizes : SizesNonneg past) : 0 ≤ file.size.toInt := by
  obtain ⟨-, path, member⟩ := delivered
  exact sizes path file member

theorem ranged_inBounds {p : Planner} {past : Past} {file : File} (headers : Headers)
    (delivered : Delivered past file) (sizes : SizesNonneg past) :
    (p.ranged file headers).body.InBounds past := by
  have whole : Inside 0 file.size file.size := inside_whole (delivered.size sizes)
  unfold Planner.ranged
  dsimp only
  split_ifs
  · cases p.header (str "range") with
    | none => exact ⟨delivered, whole⟩
    | some range =>
      dsimp only
      cases found : parseRangeSpec range file.size with
      | satisfiable r => exact ⟨delivered, parseRangeSpec_inside found⟩
      | notSatisfiable => trivial
      | notApplicable => exact ⟨delivered, whole⟩
  · exact ⟨delivered, whole⟩

theorem Replies.inBounds {p : Planner} {past : Past} {reply : Reply} (replies : Replies p past reply)
    (sizes : SizesNonneg past) : reply.body.InBounds past := by
  cases replies with
  | refused => trivial
  | preflight => trivial
  | text => trivial
  | outside => trivial
  | errorPage file delivered => exact ⟨delivered, inside_whole (delivered.size sizes)⟩
  | redirect => trivial
  | listing body noFile =>
    cases body with
    | fileRegion file offset length => exact absurd rfl (noFile file offset length)
    | empty | bytes | listing => trivial
  | file file path index choice sample tried member delivered served =>
    unfold Planner.fileReply
    dsimp only
    split_ifs
    · trivial
    · exact ranged_inBounds _ delivered sizes

/-- At every point of a run: what is read was delivered, and so was the file of the body that
the run ends in, which lies inside it. -/
theorem run_regions {config : Config} {request : Request} {mime : MimeRegistry} {past : Past}
    {last : Step} (run : Run (start config request mime) past last) (sizes : SizesNonneg past) :
    (∀ file count next, last = Step.reads file count next → Delivered past file ∧ 0 < count) ∧
      ∀ response, last = .done (.responds response) → response.body.InBounds past := by
  constructor
  · intro file count next same
    subst same
    cases run_asks run with
    | magic file delivered => exact ⟨delivered, by decide⟩
    | sample file delivered => exact ⟨delivered, by decide⟩
  · intro response same
    subst same
    generalize outcome : Outcome.responds response = result at run
    cases run_ends run with
    | responds reply replies =>
      obtain rfl := Outcome.responds.inj outcome
      dsimp only
      split_ifs
      · trivial
      · exact replies.inBounds sizes
    | next => cases outcome
    | changed => cases outcome
    | trap => cases outcome

def clipConfig : Config := .middlewareDefault (str "/site")

def clipRequest : Request where
  meth := .get
  target := str "/a.bin"
  headers := OrderedMap.ofList [(str "range", str "bytes=3-18446744073709551626")]

def clip : File := ⟨7, 1, 11, 0⟩

def clipPast : Past := [opened (str "/site/a.bin") none, opened (str "/site/a.bin") (some clip)]

def clipResponse : Response where
  status := 206
  headers := OrderedMap.ofList
    [(str "Content-Type", str "application/octet-stream"),
      (str "Cache-Control", str "max-age=3600"), (str "Accept-Ranges", str "bytes"),
      (str "ETag", str "W/\"11-0\""), (str "Last-Modified", str "Thu, 01 Jan 1970 00:00:00 GMT"),
      (str "Content-Length", str "8"), (str "Content-Range", str "bytes 3-10/11")]
  body := .fileRegion clip 3 8

-- The end of the range wraps to 10 when it is parsed.
theorem run_regions_clip :
    (∀ file count next, (.done (.responds clipResponse) : Step) = Step.reads file count next →
        Delivered clipPast file ∧ 0 < count) ∧
      ∀ response, (.done (.responds clipResponse) : Step) = .done (.responds response) →
        response.body.InBounds clipPast := by
  have run : Run (start clipConfig clipRequest .new) clipPast (.done (.responds clipResponse)) :=
    run_of_result (by decide +kernel)
  refine run_regions run ?_
  intro path file member
  simp only [clipPast, opened, List.mem_cons, List.not_mem_nil, or_false] at member
  rcases member with same | same
  · cases same
  · cases same
    decide

end HttpServer.StaticPlan

import HttpServer.Engine.Transfers
import HttpServer.Server.Forwarding

set_option autoImplicit false

namespace HttpServer.Server

open Unicode Text Framing StateRun
open Bodies (Response written writeBody writeTo)

section

variable {τ : Type} [Reader τ]

theorem mapM_readBody_idle {maxima : List Nat} {c : Connection τ} (idle : c.body = .empty) :
    ∃ pieces, maxima.mapM readBody c = .ok pieces c ∧ pieces.flatten = [] := by
  induction maxima with
  | nil => exact ⟨[], by simp, rfl⟩
  | cons maxLen maxima ih =>
    obtain ⟨pieces, run, nothing⟩ := ih
    have first : readBody maxLen c = .ok [] c := by
      simp only [readBody, openBlock, bind_ok, get_ok]
      exact ⟨none, c, ⟨c, c, ⟨rfl, rfl⟩, by simp [idle]⟩, by simp⟩
    refine ⟨[] :: pieces, ?_, by rw [List.flatten_cons, nothing, List.append_nil]⟩
    simp only [List.mapM_cons, bind_ok, pure_ok]
    exact ⟨[], c, first, pieces, c, run, rfl, rfl⟩

theorem mapM_readBody_ends {maxima : List Nat} {c : Connection τ} {left rest : Bytes}
    (positive : ∀ maxLen ∈ maxima, 0 < maxLen) (remains : Remains c.body c.unread left rest) :
    ∃ pieces c', maxima.mapM readBody c = .ok pieces c' ∧ pieces.flatten <+: left ∧
      (left.length < maxima.length → [] ∈ pieces) ∧
      ([] ∈ pieces → pieces.flatten = left ∧ c'.body = .empty ∧ c'.unread = rest) := by
  induction maxima generalizing c left with
  | nil => exact ⟨[], c, by simp, List.nil_prefix, by simp, by simp⟩
  | cons maxLen maxima ih =>
    simp only [List.mem_cons, forall_eq_or_imp] at positive
    obtain ⟨piece, after, d, run, whole, remains, -, finished⟩ :=
      readBody_run _ positive.1 remains
    obtain ⟨pieces, c', more, front, long, ended⟩ := ih positive.2 remains
    have both : ∀ {pieces : List Bytes} {c' : Connection τ},
        maxima.mapM readBody d = .ok pieces c' →
        (maxLen :: maxima).mapM readBody c = .ok (piece :: pieces) c' := by
      intro pieces c' more
      simp only [List.mapM_cons, bind_ok, pure_ok]
      exact ⟨piece, d, run, pieces, c', more, rfl, rfl⟩
    by_cases none : piece = []
    · obtain ⟨nothing, idle⟩ := finished none
      rw [idle] at remains
      obtain ⟨unread, -⟩ := Remains.ended_iff.mp remains
      obtain ⟨pieces, more, empty⟩ := @mapM_readBody_idle τ _ maxima d idle
      have all : (piece :: pieces).flatten = left := by
        rw [List.flatten_cons, none, empty, nothing]
        rfl
      exact ⟨piece :: pieces, d, both more, by rw [all], by simp [none],
        fun _ => ⟨all, idle, unread⟩⟩
    · obtain ⟨pieces, c', more, front, long, ended⟩ := ih positive.2 remains
      refine ⟨piece :: pieces, c', both more, ?_, ?_, ?_⟩
      · rw [List.flatten_cons, whole]
        exact (List.prefix_append_right_inj piece).mpr front
      · intro enough
        have some := List.length_pos_iff.mpr none
        rw [whole, List.length_append, List.length_cons] at enough
        exact List.mem_cons_of_mem _ (long (by omega))
      · intro member
        obtain ⟨all, facts⟩ := ended (by simpa [Ne.symm none] using member)
        exact ⟨by rw [List.flatten_cons, all, whole], facts⟩

end

/-- Whatever follows, and by any buffers, `bytes` are read as the body `data`, and once it has
ended the connection is idle right after them. -/
def Decodes (bytes data : Bytes) : Prop :=
  ∀ (τ : Type) [Reader τ] (c : Connection τ) (rest : Bytes) (maxima : List Nat),
    c.body = .chunked 0 → c.unread = bytes ++ rest → (∀ maxLen ∈ maxima, 0 < maxLen) →
    ∃ pieces c', maxima.mapM readBody c = .ok pieces c' ∧ pieces.flatten <+: data ∧
      (data.length < maxima.length → [] ∈ pieces) ∧
      ([] ∈ pieces → pieces.flatten = data ∧ c'.body = .empty ∧ c'.unread = rest)

-- The pieces of a division: not empty, and each with a length that the source can hold.
def Division (pieces : List Bytes) : Prop :=
  ∀ piece ∈ pieces, piece ≠ [] ∧ piece.length ≤ 2147483647

theorem decodes_chunked {pieces : List Bytes} (division : Division pieces) :
    Decodes (bodyBytes true pieces) pieces.flatten := by
  intro τ _ c rest maxima state unread positive
  have valid : ∀ chunk ∈ pieces.map blockChunk, chunk.Valid := by
    intro chunk member
    obtain ⟨piece, inside, rfl⟩ := List.mem_map.mp member
    exact blockChunk_valid (division piece inside).1 (division piece inside).2
  have remains := Remains.chunks (pieces.map blockChunk) forwardedEnd rest valid forwardedEnd_valid
  rw [chunkData_blocks, ← bodyBytes_chunked, ← state, ← unread] at remains
  exact mapM_readBody_ends positive remains

theorem written_eq (chunked : Bool) (pieces : List Bytes) :
    written chunked pieces = bodyBytes chunked pieces := rfl

abbrev Queue := List Bytes × Bytes

def takeChunk : EStateM Unit Queue Bytes := fun queue =>
  match queue.1 with
  | [] => .ok [] queue
  | chunk :: chunks => .ok chunk (chunks, queue.2)

def append (bytes : Bytes) : EStateM Unit Queue Unit :=
  modify fun queue => (queue.1, queue.2 ++ bytes)

theorem putIf_append (chunked : Bool) (bytes : Bytes) (queue : Queue) :
    Bodies.putIf append chunked bytes queue =
      .ok () (queue.1, queue.2 ++ if chunked then bytes else []) := by
  cases chunked with
  | true => rfl
  | false => simp [Bodies.putIf]

theorem writeLoop_queue (chunked : Bool) {pieces : List Bytes} (some : ∀ piece ∈ pieces, piece ≠ [])
    (before : Bytes) :
    Bodies.writeLoop () takeChunk append chunked (pieces.length + 1) (pieces, before) =
      .ok () ([], before ++ pieces.flatMap (Bodies.block chunked)) := by
  induction pieces generalizing before with
  | nil =>
    rw [Bodies.writeLoop, bind_of_ok (show takeChunk ([], before) = .ok [] ([], before) from rfl)]
    simp
  | cons piece pieces ih =>
    simp only [List.mem_cons, forall_eq_or_imp] at some
    rw [List.length_cons, Bodies.writeLoop,
      bind_of_ok (show takeChunk (piece :: pieces, before) = .ok piece (pieces, before) from rfl),
      if_neg some.1, bind_of_ok (putIf_append _ _ _),
      bind_of_ok (show append piece _ = .ok () _ from rfl), bind_of_ok (putIf_append _ _ _), ih some.2]
    simp only [List.flatMap_cons, Bodies.block, List.append_assoc]

theorem writeBody_queue (chunked : Bool) {pieces : List Bytes}
    (some : ∀ piece ∈ pieces, piece ≠ []) :
    writeBody () takeChunk append chunked (pieces.length + 1) (pieces, []) =
      .ok () ([], written chunked pieces) := by
  rw [writeBody, bind_of_ok (writeLoop_queue chunked some []), putIf_append, List.nil_append,
    written]

section

variable {σ : Type} [Reader σ]

theorem forwardLoop_run {block fuel : Nat} {chunked : Bool} {c c' : Connection σ}
    {pieces : List Bytes} (run : piecesLoop block fuel c = .ok pieces c') :
    forwardLoop block chunked fuel c = .ok (pieces.flatMap (writeBlock chunked)) c' := by
  induction fuel generalizing c pieces with
  | zero => simp [piecesLoop] at run
  | succ fuel ih =>
    simp only [piecesLoop, bind_ok, ite_ok, pure_ok] at run
    simp only [forwardLoop, bind_ok, ite_ok, pure_ok]
    obtain ⟨piece, d, read, ⟨none, rfl, rfl⟩ | ⟨more, rest, e, run, rfl, rfl⟩⟩ := run
    · exact ⟨piece, d, read, Or.inl ⟨none, by simp⟩⟩
    · exact ⟨piece, d, read, Or.inr ⟨more, _, e, ih run, by simp⟩⟩

theorem readBody_length {maxLen : Nat} {c c' : Connection σ} {piece : Bytes}
    (run : readBody maxLen c = .ok piece c') : piece.length ≤ maxLen := by
  simp only [readBody, bind_ok] at run
  obtain ⟨block, d, -, run⟩ := run
  cases block with
  | none =>
    simp only [pure_ok] at run
    simp [← run.1]
  | some remaining =>
    simp only [bind_ok, ite_ok, throw_ok, pure_ok, and_false, false_or] at run
    obtain ⟨bytes, e, read, -, _, _, -, rfl, -⟩ := run
    have := (directRead_ok read).2.1
    omega

theorem piecesLoop_division {block fuel : Nat} {c c' : Connection σ} {pieces : List Bytes}
    (bound : block ≤ 2147483647) (run : piecesLoop block fuel c = .ok pieces c') :
    Division pieces := by
  induction fuel generalizing c pieces with
  | zero => simp [piecesLoop] at run
  | succ fuel ih =>
    simp only [piecesLoop, bind_ok, ite_ok, pure_ok] at run
    obtain ⟨piece, d, read, ⟨-, rfl, -⟩ | ⟨more, rest, e, run, rfl, rfl⟩⟩ := run
    · simp [Division]
    · intro other member
      rcases List.mem_cons.mp member with rfl | later
      · exact ⟨more, Nat.le_trans (readBody_length read) bound⟩
      · exact ih run other later

end

/-- `write_to` writes every division of every body, and the loop of the proxy every body that it
reads, so that it is read back whole and nothing beyond it. -/
theorem chunked_round_trip :
    (∀ pieces, Division pieces → ∃ bytes,
      writeBody () takeChunk append true (pieces.length + 1) (pieces, []) = .ok () ([], bytes) ∧
        Decodes bytes pieces.flatten) ∧
    (∀ (before after : Response), before.Sound → before.History →
      writeTo true before = .ok () after → ∃ bytes,
        after.host.socket = before.host.socket ++ bytes ∧
        Decodes bytes before.left) ∧
    ∀ (σ : Type) [Reader σ] (c : Connection σ) (block : Int32) (data rest : Bytes),
      0 < block.toInt → Remains c.body c.unread data rest → ∃ bytes c',
        forwardBody block.toInt.toNat true c = .ok bytes c' ∧ Decodes bytes data ∧
        c'.unread = rest := by
  refine ⟨?_, ?_, ?_⟩
  · intro pieces division
    exact ⟨_, writeBody_queue true fun piece member => (division piece member).1,
      decodes_chunked division⟩
  · intro before after sound history run
    obtain ⟨pieces, whole, bounds, socket⟩ := Bodies.writeTo_ok sound history run
    refine ⟨_, socket, ?_⟩
    rw [← whole, written_eq]
    refine decodes_chunked fun piece member => ⟨(bounds piece member).1, ?_⟩
    have := (bounds piece member).2
    omega
  · intro σ _ c block data rest positive remains
    have bound := Int32.toInt_lt block
    obtain ⟨pieces, c', run, whole, -, unread⟩ :=
      @piecesLoop_run σ _ block.toInt.toNat _ _ _ _ (by omega)
        (Nat.lt_succ_of_le remains.length_le) remains
    refine ⟨bodyBytes true pieces, c', ?_, ?_, unread⟩
    · simp only [forwardBody, bind_ok, pure_ok]
      exact ⟨_, c', forwardLoop_run run, rfl, rfl⟩
    · rw [← whole]
      exact decodes_chunked (piecesLoop_division (by omega) run)

def verse : List Bytes := [encode (str "one small "), encode (str "step")]

def verseBuffer : Bodies.Buffer := ⟨verse.flatten, by decide⟩

def versePlan : Response := .start (.bytes verseBuffer) 8 ⟨List.replicate 20 ⟨Bodies.greeting, .done 0⟩, []⟩

def verseUpload : Connection Bytes :=
  { Connection.new verse.flatten with body := .fixed verse.flatten.length }

theorem chunked_round_trip_verse :
    (∃ bytes, writeBody () takeChunk append true 3 (verse, []) = .ok () ([], bytes) ∧
      Decodes bytes verse.flatten) ∧
    (∃ after bytes, writeTo true versePlan = .ok () after ∧
      after.host.socket = versePlan.host.socket ++ bytes ∧
      Decodes bytes versePlan.left) ∧
    ∃ bytes c', forwardBody (4 : Int32).toInt.toNat true verseUpload = .ok bytes c' ∧
      Decodes bytes verse.flatten ∧ c'.unread = [] := by
  refine ⟨?_, ?_, ?_⟩
  · have short : verse.all (fun piece => piece ≠ [] ∧ piece.length ≤ 2147483647) = true := by
      decide +kernel
    exact chunked_round_trip.1 verse fun piece member =>
      of_decide_eq_true (List.all_eq_true.mp short piece member)
  · have finished : (Bodies.arrived (writeTo true versePlan)).isSome = true := by
      decide +kernel
    cases run : writeTo true versePlan with
    | error e after => simp [run, Bodies.arrived] at finished
    | ok done after =>
      have sound : versePlan.Sound := Bodies.start_sound trivial (by decide)
      have history : versePlan.History := by
        intro region body
        cases body
      obtain ⟨bytes, facts⟩ := chunked_round_trip.2.1 versePlan after sound history run
      exact ⟨after, bytes, rfl, facts⟩
  · have remains : Remains verseUpload.body verseUpload.unread verse.flatten [] := by
      have whole := Remains.fixed verse.flatten [] (by decide)
      rwa [List.append_nil] at whole
    exact chunked_round_trip.2.2 Bytes verseUpload 4 verse.flatten [] (by decide) remains

end HttpServer.Server
